import KernelAx.Cbpf.Instruction

/-!
# Classic BPF — verification and evaluation

`Program.verify` with its two passes, the structural one and the all-path scratch analysis, and
the interpreter. A `Program` carries the proof that it was verified.

The interpreter's unreachable branches and out-of-range indexing panic in the source; here they
are `none`. Allocation failures (`NoMemory`) are left out.
-/

namespace KernelAx.Cbpf

def maxInstructions : Nat := 4096

def scratchWords : Nat := 16

inductive VerifyError where
  | empty
  | tooLong (length : Nat)
  | unsupportedOpcode (pc : Nat) (code : BitVec 16)
  | unsupportedAncillaryLoad (pc : Nat) (offset : BitVec 32)
  | immediateDivisionByZero (pc : Nat)
  | immediateShiftOutOfRange (pc : Nat) (shift : BitVec 32)
  | scratchOutOfRange (pc : Nat) (index : BitVec 32)
  | scratchUninitialized (pc : Nat) (index : BitVec 32)
  | jumpOutOfRange (pc : Nat)
  | missingFinalReturn
  deriving DecidableEq, Repr

/-! ### The structural pass -/

/-- The checks on one instruction that do not look at the rest of the program. -/
def checkStatement (pc : Nat) (i : Instruction) : Except VerifyError Unit :=
  match i.op with
  | none => .error (.unsupportedOpcode pc i.code)
  | some (.alu .div .k) | some (.alu .mod .k) =>
    if i.k = 0 then .error (.immediateDivisionByZero pc) else .ok ()
  | some (.alu .lsh .k) | some (.alu .rsh .k) =>
    if 32 ≤ i.k.toNat then .error (.immediateShiftOutOfRange pc i.k) else .ok ()
  | some .ldMem | some .ldxMem | some .st | some .stx =>
    if scratchWords ≤ i.k.toNat then .error (.scratchOutOfRange pc i.k) else .ok ()
  | some (.ldAbs _) =>
    if i.k &&& 0x80000000 ≠ 0 ∧ ancillaryFromOffset i.k = none then
      .error (.unsupportedAncillaryLoad pc i.k)
    else .ok ()
  | some .ldxBMsh =>
    if i.k &&& 0x80000000 ≠ 0 then .error (.unsupportedAncillaryLoad pc i.k) else .ok ()
  | _ => .ok ()

def jumpTargets (pc : Nat) (i : Instruction) : List Nat :=
  match i.op with
  | some .jmpJa => [pc + 1 + i.k.toNat]
  | some (.jmp _ _) => [pc + 1 + i.jt.toNat, pc + 1 + i.jf.toNat]
  | _ => []

def checkJump (length pc : Nat) (i : Instruction) : Except VerifyError Unit :=
  if (jumpTargets pc i).all (· < length) then .ok () else .error (.jumpOutOfRange pc)

/-- The loop over the instructions from `pc` on. -/
def checkInstructions (length : Nat) : Nat → List Instruction → Except VerifyError Unit
  | _, [] => .ok ()
  | pc, i :: rest => do
    checkStatement pc i
    checkJump length pc i
    checkInstructions length (pc + 1) rest

def isReturn (i : Instruction) : Bool := i.op = some .retK ∨ i.op = some .retA

def verifyStructure (instructions : List Instruction) : Except VerifyError Unit :=
  if instructions.isEmpty then .error .empty
  else if maxInstructions < instructions.length then .error (.tooLong instructions.length)
  else do
    checkInstructions instructions.length 0 instructions
    if (instructions.getLast?.map isReturn).getD false then .ok () else .error .missingFinalReturn

/-! ### The scratch analysis -/

/-- The words initialized after an instruction, or the load of an uninitialized one. -/
def scratchTransfer (pc : Nat) (i : Instruction) (initialized : BitVec 16) :
    Except VerifyError (BitVec 16) :=
  match i.op with
  | some .ldMem | some .ldxMem =>
    if initialized &&& (1#16 <<< i.k.toNat) = 0 then .error (.scratchUninitialized pc i.k)
    else .ok initialized
  | some .st | some .stx => .ok (initialized ||| (1#16 <<< i.k.toNat))
  | _ => .ok initialized

/-- Where control can go after an instruction. -/
def successors (pc : Nat) (i : Instruction) : List Nat :=
  match i.op with
  | some .retK | some .retA => []
  | some .jmpJa | some (.jmp _ _) => jumpTargets pc i
  | _ => [pc + 1]

/-- `merge_initialized` on one slot. -/
def mergeInitialized (slot : Option (BitVec 16)) (incoming : BitVec 16) : Option (BitVec 16) :=
  some (match slot with
    | some existing => existing &&& incoming
    | none => incoming)

def mergeSuccessors (initialized : BitVec 16) (targets : List Nat)
    (incoming : List (Option (BitVec 16))) : List (Option (BitVec 16)) :=
  targets.foldl (fun inc t => inc.modify t fun slot => mergeInitialized slot initialized) incoming

/-- The forward pass from `pc` on; `incoming` holds what is initialized on every path so far. -/
def scratchPass : Nat → List Instruction → List (Option (BitVec 16)) → Except VerifyError Unit
  | _, [], _ => .ok ()
  | pc, i :: rest, incoming =>
    match incoming[pc]? with
    | some (some initialized) => do
      let out ← scratchTransfer pc i initialized
      scratchPass (pc + 1) rest (mergeSuccessors out (successors pc i) incoming)
    | _ => scratchPass (pc + 1) rest incoming

def verifyScratchInitialization (instructions : List Instruction) : Except VerifyError Unit :=
  scratchPass 0 instructions ((List.replicate instructions.length none).set 0 (some 0))

def verifyProgram (instructions : List Instruction) : Except VerifyError Unit := do
  verifyStructure instructions
  verifyScratchInitialization instructions

structure Program where
  instructions : List Instruction
  verified : verifyProgram instructions = .ok ()

def Program.verify (instructions : List Instruction) : Except VerifyError Program :=
  match h : verifyProgram instructions with
  | .ok () => .ok ⟨instructions, h⟩
  | .error e => .error e

/-! ### Evaluation -/

structure Locals where
  accumulator : BitVec 32
  index : BitVec 32
  scratch : Nat → BitVec 32
  pc : Nat

def Locals.init : Locals := ⟨0, 0, fun _ => 0, 0⟩

inductive Iteration where
  | next (l : Locals)
  | return (value : BitVec 32)
  | panic

def wrappingShl (v n : BitVec 32) : BitVec 32 := v <<< (n.toNat % 32)

def wrappingShr (v n : BitVec 32) : BitVec 32 := v >>> (n.toNat % 32)

def JmpOp.holds (op : JmpOp) (a operand : BitVec 32) : Bool :=
  match op with
  | .jeq => a = operand
  | .jgt => operand.toNat < a.toNat
  | .jge => operand.toNat ≤ a.toNat
  | .jset => a &&& operand ≠ 0

/-- One arithmetic instruction; a zero divisor in X ends the program with zero. -/
def evaluateAlu (op : AluOp) (src : Source) (i : Instruction) (l : Locals) : Iteration :=
  let a := l.accumulator
  let operand := match src with | .k => i.k | .x => l.index
  let set (v : BitVec 32) : Iteration := .next { l with accumulator := v, pc := l.pc + 1 }
  match op with
  | .add => set (a + operand)
  | .sub => set (a - operand)
  | .mul => set (a * operand)
  | .or => set (a ||| operand)
  | .and => set (a &&& operand)
  | .xor => set (a ^^^ operand)
  | .lsh => set (wrappingShl a (match src with | .k => i.k | .x => l.index &&& 31))
  | .rsh => set (wrappingShr a (match src with | .k => i.k | .x => l.index &&& 31))
  | .div =>
    if operand = 0 then (match src with | .k => .panic | .x => .return 0) else set (a / operand)
  | .mod =>
    if operand = 0 then (match src with | .k => .panic | .x => .return 0) else set (a % operand)

/-- One iteration of the loop on instruction `i`. -/
def evaluateInstruction (input : Input) (i : Instruction) (l : Locals) : Iteration :=
  let setA (v : BitVec 32) : Iteration := .next { l with accumulator := v, pc := l.pc + 1 }
  let setX (v : BitVec 32) : Iteration := .next { l with index := v, pc := l.pc + 1 }
  let store (v : BitVec 32) : Iteration :=
    if i.k.toNat < scratchWords then
      .next { l with scratch := Function.update l.scratch i.k.toNat v, pc := l.pc + 1 }
    else .panic
  match i.op with
  | none => .panic
  | some .ldImm => setA i.k
  | some (.ldAbs width) =>
    match ancillaryFromOffset i.k with
    | some field => setA ((input.ancillary field).getD 0)
    | none =>
      match input.load i.k width with
      | none => .return 0
      | some value => setA value
  | some (.ldInd width) =>
    -- `index.checked_add(k)`
    if l.index.toNat + i.k.toNat < 2 ^ 32 then
      match input.load (l.index + i.k) width with
      | none => .return 0
      | some value => setA value
    else .return 0
  | some .ldMem => if i.k.toNat < scratchWords then setA (l.scratch i.k.toNat) else .panic
  | some .ldLen => setA input.len
  | some .ldxImm => setX i.k
  | some .ldxMem => if i.k.toNat < scratchWords then setX (l.scratch i.k.toNat) else .panic
  | some .ldxLen => setX input.len
  | some .ldxBMsh =>
    match input.load i.k .byte with
    | none => .return 0
    | some value => setX ((value &&& 0x0f) <<< 2)
  | some .st => store l.accumulator
  | some .stx => store l.index
  | some (.alu op src) => evaluateAlu op src i l
  | some .aluNeg => setA (-l.accumulator)
  | some .jmpJa => .next { l with pc := l.pc + 1 + i.k.toNat }
  | some (.jmp op src) =>
    let operand := match src with | .k => i.k | .x => l.index
    .next { l with
      pc := l.pc + 1 + (if op.holds l.accumulator operand then i.jt else i.jf).toNat }
  | some .retK => .return i.k
  | some .retA => .return l.accumulator
  | some .miscTax => setX l.accumulator
  | some .miscTxa => setA l.index

/-- The loop with `fuel` iterations left: the returned value and the steps taken. The source
runs while `steps < len` and panics behind the loop. -/
def evaluateLoop (instructions : List Instruction) (input : Input) :
    Nat → Nat → Locals → Option (BitVec 32 × Nat)
  | 0, _, _ => none
  | fuel + 1, steps, l =>
    match instructions[l.pc]? with
    | none => none
    | some i =>
      match evaluateInstruction input i l with
      | .next l' => evaluateLoop instructions input fuel (steps + 1) l'
      | .return value => some (value, steps + 1)
      | .panic => none

def evaluateCounted (instructions : List Instruction) (input : Input) : Option (BitVec 32 × Nat) :=
  evaluateLoop instructions input instructions.length 0 .init

def evaluate (instructions : List Instruction) (input : Input) : Option (BitVec 32) :=
  (evaluateCounted instructions input).map Prod.fst

end KernelAx.Cbpf

import KernelAx.Cbpf.Emission
import KernelAx.Cbpf.Safety

/-!
# Classic BPF — the three source checkers

The interpreter, the translator and the validator of raw translations each check a source program
before they use it, with code of their own. The three checkers are written out here as they stand,
on raw opcodes, with the order of their tests, their ways to compute a jump target and their own
scratch passes; what would panic (an index outside of `incoming`, a shift beyond the word) is
`none`.

Allocation failures (`NoMemory`) are left out, as in `Program`.

* `verifyProgram_eq`, `validateSource_some`, `validateProfile_eq`, `validateSourceContract_some` —
  no checker panics, and they are the ones that the model of the translation runs;
* `checkers_agree` — the three accept the same programs.
-/

namespace KernelAx.Cbpf

open Instruction

/-- `matches!(instruction.code, …)`. -/
def Instruction.isOneOf (i : Instruction) (os : List Opcode) : Bool :=
  os.any fun o => i.code == o.code

theorem Instruction.isOneOf_eq {i : Instruction} {o : Opcode} (h : i.op = some o)
    (os : List Opcode) : i.isOneOf os = decide (o ∈ os) := by
  have hcode : o.code = i.code := Opcode.code_of_ofCode h
  rw [Bool.eq_iff_iff]
  simp only [isOneOf, List.any_eq_true, beq_iff_eq, decide_eq_true_eq]
  constructor
  · rintro ⟨o', ho', hc⟩
    have : some o' = some o := by rw [← h, op, hc, Opcode.ofCode_code]
    cases this
    exact ho'
  · exact fun ho => ⟨o, ho, hcode.symm⟩

theorem Instruction.isOneOf_none {i : Instruction} (h : i.op = none) (os : List Opcode) :
    i.isOneOf os = false := by
  rw [Bool.eq_false_iff]
  intro hany
  simp only [isOneOf, List.any_eq_true, beq_iff_eq] at hany
  obtain ⟨o, -, hc⟩ := hany
  rw [op, hc, Opcode.ofCode_code] at h
  cases h

namespace Acceptance

open Translate (TranslationError)

/-! ### What the checkers share -/

/-- The opcodes that `is_supported` of the interpreter, `is_supported` of the translator and
`source_opcode_supported` of the validator list, in this order. -/
def supported (code : BitVec 16) : Bool := Opcode.all.any fun o => code == o.code

def conditionalJumps : List Opcode :=
  [.jmp .jeq .k, .jmp .jeq .x, .jmp .jgt .k, .jmp .jgt .x, .jmp .jge .k, .jmp .jge .x,
    .jmp .jset .k, .jmp .jset .x]

def absoluteLoads : List Opcode := [.ldAbs .word, .ldAbs .half, .ldAbs .byte]

def checkedAdd (a b : Nat) : Option Nat := if a + b < 2 ^ 64 then some (a + b) else none

/-- `1_u16 << k`. -/
def scratchBit (k : BitVec 32) : Option (BitVec 16) :=
  if k.toNat < 16 then some (1#16 <<< k.toNat) else none

/-- `merge_initialized(&mut incoming[target], initialized)`. -/
def mergeAt (target : Nat) (initialized : BitVec 16) (incoming : List (Option (BitVec 16))) :
    Option (List (Option (BitVec 16))) :=
  if target < incoming.length then
    some (incoming.modify target fun slot => mergeInitialized slot initialized)
  else none

/-- The result of a loop over the instructions: it ends early, or goes on with another state. -/
inductive Turn (ε σ : Type) where
  | fail (error : ε)
  | next (state : σ)

/-- The first `match` of a scratch pass: a load needs its word, a store adds one. -/
def scratchWord {ε : Type} (uninitialized : Nat → BitVec 32 → ε) (pc : Nat) (i : Instruction)
    (initialized : BitVec 16) : Option (Turn ε (BitVec 16)) :=
  if i.isOneOf [.ldMem, .ldxMem] then do
    let bit ← scratchBit i.k
    if initialized &&& bit = 0 then some (.fail (uninitialized pc i.k))
    else some (.next initialized)
  else if i.isOneOf [.st, .stx] then do
    let bit ← scratchBit i.k
    some (.next (initialized ||| bit))
  else some (.next initialized)

/-- A scratch pass from `pc` on; `flow` is its second `match`, which merges into the successors. -/
def scratchLoop {ε : Type} (uninitialized : Nat → BitVec 32 → ε)
    (flow : Nat → Instruction → BitVec 16 → List (Option (BitVec 16)) →
      Option (Turn ε (List (Option (BitVec 16))))) :
    Nat → List Instruction → List (Option (BitVec 16)) → Option (Except ε Unit)
  | _, [], _ => some (.ok ())
  | pc, i :: rest, incoming => do
    match ← incoming[pc]? with
    | none => scratchLoop uninitialized flow (pc + 1) rest incoming
    | some initialized =>
      match ← scratchWord uninitialized pc i initialized with
      | .fail error => some (.error error)
      | .next initialized =>
        match ← flow pc i initialized incoming with
        | .fail error => some (.error error)
        | .next incoming => scratchLoop uninitialized flow (pc + 1) rest incoming

/-- `incoming` at the start of a scratch pass. -/
def entryWords (length : Nat) : List (Option (BitVec 16)) :=
  (List.replicate length none).set 0 (some 0)

def returns (instructions : List Instruction) : Bool :=
  (instructions.getLast?.map fun i => i.isOneOf [.retK, .retA]).getD false

/-! ### The interpreter's checker -/

/-- The body of the loop of `verify_structure`. -/
def verifyInstruction (length pc : Nat) (i : Instruction) : Except VerifyError Unit :=
  if ¬ supported i.code then .error (.unsupportedOpcode pc i.code)
  else if i.isOneOf [.alu .div .k, .alu .mod .k] ∧ i.k = 0 then
    .error (.immediateDivisionByZero pc)
  else if i.isOneOf [.alu .lsh .k, .alu .rsh .k] ∧ 32 ≤ i.k.toNat then
    .error (.immediateShiftOutOfRange pc i.k)
  else if i.isOneOf [.ldMem, .ldxMem, .st, .stx] ∧ scratchWords ≤ i.k.toNat then
    .error (.scratchOutOfRange pc i.k)
  else if i.isOneOf [.jmpJa] then
    match (checkedAdd pc 1).bind fun next => checkedAdd next i.k.toNat with
    | none => .error (.jumpOutOfRange pc)
    | some target => if length ≤ target then .error (.jumpOutOfRange pc) else .ok ()
  else if i.isOneOf conditionalJumps then
    if length ≤ pc + 1 + i.jt.toNat ∨ length ≤ pc + 1 + i.jf.toNat then
      .error (.jumpOutOfRange pc)
    else .ok ()
  else if i.isOneOf absoluteLoads ∧ i.k &&& 0x80000000 ≠ 0 ∧ ancillaryFromOffset i.k = none then
    .error (.unsupportedAncillaryLoad pc i.k)
  else if i.isOneOf [.ldxBMsh] ∧ i.k &&& 0x80000000 ≠ 0 then
    .error (.unsupportedAncillaryLoad pc i.k)
  else .ok ()

/-- The second `match` of the scratch pass, in the interpreter and in the translator. -/
def flowUnchecked {ε : Type} (pc : Nat) (i : Instruction) (initialized : BitVec 16)
    (incoming : List (Option (BitVec 16))) : Option (Turn ε (List (Option (BitVec 16)))) :=
  if i.isOneOf [.retK, .retA] then some (.next incoming)
  else if i.isOneOf [.jmpJa] then (mergeAt (pc + 1 + i.k.toNat) initialized incoming).map .next
  else if i.isOneOf conditionalJumps then do
    let incoming ← mergeAt (pc + 1 + i.jt.toNat) initialized incoming
    (mergeAt (pc + 1 + i.jf.toNat) initialized incoming).map .next
  else (mergeAt (pc + 1) initialized incoming).map .next

def forEach {ε : Type} (check : Nat → Instruction → Except ε Unit) :
    Nat → List Instruction → Except ε Unit
  | _, [] => .ok ()
  | pc, i :: rest => do
    check pc i
    forEach check (pc + 1) rest

def verifyStructure (instructions : List Instruction) : Except VerifyError Unit :=
  if instructions.isEmpty then .error .empty
  else if maxInstructions < instructions.length then .error (.tooLong instructions.length)
  else do
    forEach (verifyInstruction instructions.length) 0 instructions
    if returns instructions then .ok () else .error .missingFinalReturn

/-- `verify_program` of the interpreter. -/
def verifyProgram (instructions : List Instruction) : Option (Except VerifyError Unit) :=
  match verifyStructure instructions with
  | .error error => some (.error error)
  | .ok () => scratchLoop .scratchUninitialized flowUnchecked 0 instructions
      (entryWords instructions.length)

/-! ### The translator's checker -/

/-- The body of the first loop of `validate_source`. -/
def sourceInstruction (length pc : Nat) (i : Instruction) : Except VerifyError Unit :=
  if ¬ supported i.code then .error (.unsupportedOpcode pc i.code)
  else if i.isOneOf [.alu .div .k, .alu .mod .k] ∧ i.k = 0 then
    .error (.immediateDivisionByZero pc)
  else if i.isOneOf [.alu .lsh .k, .alu .rsh .k] ∧ 32 ≤ i.k.toNat then
    .error (.immediateShiftOutOfRange pc i.k)
  else if i.isOneOf [.ldMem, .ldxMem, .st, .stx] ∧ scratchWords ≤ i.k.toNat then
    .error (.scratchOutOfRange pc i.k)
  else if i.isOneOf [.jmpJa] then
    if (((checkedAdd pc 1).bind fun next => checkedAdd next i.k.toNat).filter
        fun target => target < length) = none then .error (.jumpOutOfRange pc)
    else .ok ()
  else if i.isOneOf conditionalJumps then
    if length ≤ pc + 1 + i.jt.toNat ∨ length ≤ pc + 1 + i.jf.toNat then
      .error (.jumpOutOfRange pc)
    else .ok ()
  else if i.isOneOf absoluteLoads ∧ i.k &&& 0x80000000 ≠ 0 ∧ ancillaryFromOffset i.k = none then
    .error (.unsupportedAncillaryLoad pc i.k)
  else if i.isOneOf [.ldxBMsh] ∧ i.k &&& 0x80000000 ≠ 0 then
    .error (.unsupportedAncillaryLoad pc i.k)
  else .ok ()

/-- `validate_source` of the translator: both passes in one function. -/
def validateSource (instructions : List Instruction) : Option (Except VerifyError Unit) :=
  if instructions.isEmpty then some (.error .empty)
  else if maxInstructions < instructions.length then
    some (.error (.tooLong instructions.length))
  else
    match forEach (sourceInstruction instructions.length) 0 instructions with
    | .error error => some (.error error)
    | .ok () =>
      if ¬ returns instructions then some (.error .missingFinalReturn)
      else scratchLoop .scratchUninitialized flowUnchecked 0 instructions
        (entryWords instructions.length)

/-- The body of the loop of `validate_profile`. -/
def profileInstruction (profile : InputProfile) (pc : Nat) (i : Instruction) :
    Except TranslationError Unit :=
  if i.isOneOf absoluteLoads ∧ isAncillaryOffset i.k ∧ (ancillaryFromOffset i.k).isSome ∧
      profile ≠ .packetContextBigEndian then .error (.profileUnsupported pc i.code)
  else if profile = .nativeAlignedWords then
    if i.isOneOf [.ldAbs .word] ∧ i.k % 4 ≠ 0 then .error (.profileUnsupported pc i.code)
    else if i.isOneOf [.ldInd .word] then .ok ()
    else if i.isOneOf [.ldAbs .half, .ldAbs .byte, .ldInd .half, .ldInd .byte, .ldxBMsh] then
      .error (.profileUnsupported pc i.code)
    else .ok ()
  else .ok ()

def validateProfile (instructions : List Instruction) (profile : InputProfile) :
    Except TranslationError Unit :=
  forEach (profileInstruction profile) 0 instructions

/-! ### The validator's checker -/

def instructionContract (pc : Nat) (i : Instruction) : Except ImageValidationError Unit :=
  if ¬ supported i.code then .error (.unsupportedOpcode pc i.code)
  else if i.isOneOf [.alu .div .k, .alu .mod .k] ∧ i.k = 0 then
    .error (.immediateDivisionByZero pc)
  else if i.isOneOf [.alu .lsh .k, .alu .rsh .k] ∧ 32 ≤ i.k.toNat then
    .error (.immediateShiftOutOfRange pc i.k)
  else if i.isOneOf [.ldMem, .ldxMem, .st, .stx] ∧ scratchWords ≤ i.k.toNat then
    .error (.scratchOutOfRange pc i.k)
  else if i.isOneOf absoluteLoads ∧ i.k &&& 0x80000000 ≠ 0 ∧ ancillaryFromOffset i.k = none then
    .error (.unsupportedAncillaryLoad pc i.k)
  else if i.isOneOf [.ldxBMsh] ∧ i.k &&& 0x80000000 ≠ 0 then
    .error (.unsupportedAncillaryLoad pc i.k)
  else .ok ()

def profileContract (pc : Nat) (i : Instruction) (profile : InputProfile) :
    Except ImageValidationError Unit :=
  if i.isOneOf absoluteLoads ∧ isAncillaryOffset i.k ∧ (ancillaryFromOffset i.k).isSome ∧
      profile ≠ .packetContextBigEndian then .error (.profileUnsupported pc i.code)
  else if profile ≠ .nativeAlignedWords then .ok ()
  else if i.isOneOf [.ldAbs .word] ∧ i.k &&& 3 ≠ 0 then .error (.profileUnsupported pc i.code)
  else if i.isOneOf [.ldAbs .half, .ldAbs .byte, .ldInd .half, .ldInd .byte, .ldxBMsh] then
    .error (.profileUnsupported pc i.code)
  else .ok ()

def sourceTarget (pc offset length : Nat) : Option Nat :=
  ((checkedAdd pc 1).bind fun next => checkedAdd next offset).filter fun target => target < length

/-- The body of the loop of `validate_source_contract`. -/
def contractInstruction (profile : InputProfile) (length pc : Nat) (i : Instruction) :
    Except ImageValidationError Unit := do
  instructionContract pc i
  profileContract pc i profile
  if i.isOneOf [.jmpJa] then
    if sourceTarget pc i.k.toNat length = none then .error (.jumpOutOfRange pc) else .ok ()
  else if i.isOneOf conditionalJumps ∧ (sourceTarget pc i.jt.toNat length = none ∨
      sourceTarget pc i.jf.toNat length = none) then .error (.jumpOutOfRange pc)
  else .ok ()

/-- The second `match` of the validator's scratch pass; it checks every target again. -/
def flowChecked (length pc : Nat) (i : Instruction) (initialized : BitVec 16)
    (incoming : List (Option (BitVec 16))) :
    Option (Turn ImageValidationError (List (Option (BitVec 16)))) :=
  if i.isOneOf [.retK, .retA] then some (.next incoming)
  else if i.isOneOf [.jmpJa] then
    match sourceTarget pc i.k.toNat length with
    | none => some (.fail (.jumpOutOfRange pc))
    | some target => (mergeAt target initialized incoming).map .next
  else if i.isOneOf conditionalJumps then
    match sourceTarget pc i.jt.toNat length, sourceTarget pc i.jf.toNat length with
    | some trueTarget, some falseTarget => do
      let incoming ← mergeAt trueTarget initialized incoming
      (mergeAt falseTarget initialized incoming).map .next
    | _, _ => some (.fail (.jumpOutOfRange pc))
  else
    match checkedAdd pc 1 with
    | none => some (.fail (.jumpOutOfRange pc))
    | some next =>
      if next < length then (mergeAt next initialized incoming).map .next
      else some (.next incoming)

/-- `validate_source_contract` of the validator. -/
def validateSourceContract (instructions : List Instruction) (profile : InputProfile) :
    Option (Except ImageValidationError Unit) :=
  if instructions.isEmpty then some (.error .empty)
  else if maxInstructions < instructions.length then
    some (.error (.tooLong instructions.length))
  else
    match forEach (contractInstruction profile instructions.length) 0 instructions with
    | .error error => some (.error error)
    | .ok () =>
      if ¬ returns instructions then some (.error .missingFinalReturn)
      else scratchLoop .scratchUninitialized (flowChecked instructions.length) 0 instructions
        (entryWords instructions.length)

/-! ### Structural passes -/

theorem supported_eq (i : Instruction) : supported i.code = i.op.isSome := by
  rw [Bool.eq_iff_iff]
  simp only [supported, List.any_eq_true, beq_iff_eq, op, Opcode.ofCode,
    List.find?_isSome, decide_eq_true_eq]
  exact ⟨fun ⟨o, ho, h⟩ => ⟨o, ho, h.symm⟩, fun ⟨o, ho, h⟩ => ⟨o, ho, h.symm⟩⟩

variable {pc length : Nat} {ε : Type} {out : BitVec 16} {incoming : List (Option (BitVec 16))}
  {i : Instruction} {is : List Instruction}

theorem checkedAdd_target {k : Nat} (hpc : pc ≤ maxInstructions) (hk : k < 2 ^ 32) :
    ((checkedAdd pc 1).bind fun next => checkedAdd next k) = some (pc + 1 + k) := by
  have hmax : maxInstructions = 4096 := rfl
  unfold checkedAdd
  rw [if_pos (by omega), Option.bind_some, if_pos (by omega)]

theorem bind_ok (x : Except ε Unit) : (x >>= fun _ => Except.ok ()) = x := by
  cases x <;> rfl

/-- The arms of the interpreter's `match`, as the two checks of the verifier. -/
theorem verifyInstruction_eq (i : Instruction) (hpc : pc ≤ maxInstructions) :
    verifyInstruction length pc i = (do checkStatement pc i; checkJump length pc i) := by
  unfold verifyInstruction
  rw [supported_eq, checkedAdd_target hpc i.k.isLt]
  rcases hop : i.op with _ | o
  · simp [checkStatement, hop, error_bind]
  · simp only [isOneOf_eq hop, checkStatement, checkJump, jumpTargets, hop]
    -- in each arm one test is left, which is that of the verifier
    rcases o with _ | ⟨_ | _ | _⟩ | ⟨_ | _ | _⟩ | _ | _ | _ | _ | _ | _ | _ | _ |
      ⟨_ | _ | _ | _ | _ | _ | _ | _ | _ | _, _ | _⟩ | _ | _ | ⟨_ | _ | _ | _, _ | _⟩ | _ | _ | _ |
      _ <;> simp [conditionalJumps, absoluteLoads, ok_bind, bind_ok]
    all_goals split_ifs <;> first | rfl | omega

/-- The translator's tests differ from the interpreter's in the unconditional jump only. -/
theorem sourceInstruction_eq (i : Instruction) (hpc : pc ≤ maxInstructions) :
    sourceInstruction length pc i = verifyInstruction length pc i := by
  unfold sourceInstruction verifyInstruction
  rw [checkedAdd_target hpc i.k.isLt]
  have hjump : (if ((some (pc + 1 + i.k.toNat)).filter fun target => target < length) = none then
        Except.error (VerifyError.jumpOutOfRange pc) else .ok ())
      = match some (pc + 1 + i.k.toNat) with
        | none => .error (.jumpOutOfRange pc)
        | some target => if length ≤ target then .error (.jumpOutOfRange pc) else .ok () := by
    simp only [Option.filter_some, decide_eq_true_eq]
    split_ifs <;> first | rfl | omega | simp_all
  rw [hjump]

theorem forEach_eq {check check' : Nat → Instruction → Except ε Unit} {n : Nat}
    (h : ∀ pc i, pc ≤ n → check pc i = check' pc i) :
    ∀ (is : List Instruction) (pc : Nat), pc + is.length ≤ n →
      forEach check pc is = forEach check' pc is := by
  intro is
  induction is with
  | nil => intro pc _; rfl
  | cons i rest ih =>
    intro pc hpc
    rw [List.length_cons] at hpc
    rw [forEach, forEach, h pc i (by omega), ih (pc + 1) (by omega)]

theorem checkInstructions_eq (length : Nat) :
    ∀ (is : List Instruction) (pc : Nat), checkInstructions length pc is
      = forEach (fun pc i => do checkStatement pc i; checkJump length pc i) pc is := by
  intro is
  induction is with
  | nil => intro pc; rfl
  | cons i rest ih =>
    intro pc
    rw [checkInstructions, forEach, ih]
    cases checkStatement pc i <;> rfl

theorem isReturn_eq (i : Instruction) : i.isOneOf [.retK, .retA] = isReturn i := by
  rcases hop : i.op with _ | o
  · simp [isOneOf_none hop, isReturn, hop]
  · simp [isOneOf_eq hop, isReturn, hop]

theorem returns_eq (is : List Instruction) :
    returns is = (is.getLast?.map isReturn).getD false := by
  unfold returns
  cases is.getLast? with
  | none => rfl
  | some i => exact isReturn_eq i

theorem verifyStructure_eq (is : List Instruction) :
    verifyStructure is = Cbpf.verifyStructure is := by
  unfold verifyStructure Cbpf.verifyStructure
  rw [returns_eq]
  by_cases hlong : maxInstructions < is.length
  · simp only [hlong, if_true]
  · rw [forEach_eq (fun pc i hpc => verifyInstruction_eq i hpc) is 0 (by omega),
      ← checkInstructions_eq]

/-! ### Scratch passes -/

theorem sourceTarget_eq {offset : Nat} (hpc : pc ≤ maxInstructions) (hoffset : offset < 2 ^ 32) :
    sourceTarget pc offset length
      = if pc + 1 + offset < length then some (pc + 1 + offset) else none := by
  rw [sourceTarget, checkedAdd_target hpc hoffset]
  simp only [Option.filter_some, decide_eq_true_eq]

theorem mergeAt_eq {target : Nat} (h : target < incoming.length) :
    mergeAt target out incoming
      = some (incoming.modify target fun slot => mergeInitialized slot out) := if_pos h

/-- The arms of the second `match` of a pass, with the successors of each. -/
inductive FlowArm (pc : Nat) (i : Instruction) : Prop
  | exit (ret : i.isOneOf [.retK, .retA] = true) (next : successors pc i = [])
  | jump (ret : i.isOneOf [.retK, .retA] = false) (always : i.isOneOf [.jmpJa] = true)
      (next : successors pc i = [pc + 1 + i.k.toNat])
  | branch (ret : i.isOneOf [.retK, .retA] = false) (always : i.isOneOf [.jmpJa] = false)
      (conditional : i.isOneOf conditionalJumps = true)
      (next : successors pc i = [pc + 1 + i.jt.toNat, pc + 1 + i.jf.toNat])
  | fall (ret : i.isOneOf [.retK, .retA] = false) (always : i.isOneOf [.jmpJa] = false)
      (conditional : i.isOneOf conditionalJumps = false) (next : successors pc i = [pc + 1])

theorem flowArm (pc : Nat) (i : Instruction) : FlowArm pc i := by
  rcases hop : i.op with _ | o
  · exact .fall (isOneOf_none hop _) (isOneOf_none hop _)
      (isOneOf_none hop _) (by simp [successors, hop])
  · have hsel := isOneOf_eq hop
    cases o with
    | retK | retA => exact .exit (hsel _) (by simp [successors, hop])
    | jmpJa => exact .jump (hsel _) (hsel _) (by simp [successors, jumpTargets, hop])
    | jmp op src =>
      refine .branch (by simp [hsel]) (by simp [hsel]) ?_ (by simp [successors, jumpTargets, hop])
      rw [hsel]
      cases op <;> cases src <;> rfl
    | _ =>
      exact .fall (by simp [hsel]) (by simp [hsel]) (by simp [hsel, conditionalJumps])
        (by simp [successors, hop])

theorem flowUnchecked_eq (h : ∀ t ∈ successors pc i, t < incoming.length) :
    flowUnchecked pc i out incoming
      = some (.next (mergeSuccessors out (successors pc i) incoming) : Turn ε _) := by
  unfold flowUnchecked
  cases flowArm pc i with
  | exit ret next =>
    rw [if_pos ret, next]
    rfl
  | jump ret always next =>
    rw [next] at h ⊢
    rw [if_neg (by simp [ret]), if_pos always, mergeAt_eq (h _ (by simp))]
    rfl
  | branch ret always conditional next =>
    rw [next] at h ⊢
    rw [if_neg (by simp [ret]), if_neg (by simp [always]), if_pos conditional,
      mergeAt_eq (h _ (by simp))]
    dsimp only [Option.bind_eq_bind, Option.bind_some]
    rw [mergeAt_eq (by rw [List.length_modify]; exact h _ (by simp))]
    rfl
  | fall ret always conditional next =>
    rw [next] at h ⊢
    rw [if_neg (by simp [ret]), if_neg (by simp [always]), if_neg (by simp [conditional]),
      mergeAt_eq (h _ (by simp))]
    rfl

theorem flowChecked_eq (hpc : pc ≤ maxInstructions)
    (h : ∀ t ∈ successors pc i, t < incoming.length) :
    flowChecked incoming.length pc i out incoming
      = some (.next (mergeSuccessors out (successors pc i) incoming)) := by
  have hmax : maxInstructions = 4096 := rfl
  unfold flowChecked
  cases flowArm pc i with
  | exit ret next =>
    rw [if_pos ret, next]
    rfl
  | jump ret always next =>
    rw [next] at h ⊢
    have htarget := h _ (List.mem_singleton.mpr rfl)
    rw [if_neg (by simp [ret]), if_pos always, sourceTarget_eq hpc i.k.isLt, if_pos htarget]
    dsimp only
    rw [mergeAt_eq htarget]
    rfl
  | branch ret always conditional next =>
    rw [next] at h ⊢
    have htrue := h (pc + 1 + i.jt.toNat) (by simp)
    have hfalse := h (pc + 1 + i.jf.toNat) (by simp)
    rw [if_neg (by simp [ret]), if_neg (by simp [always]), if_pos conditional,
      sourceTarget_eq hpc (by omega), sourceTarget_eq hpc (by omega), if_pos htrue,
      if_pos hfalse]
    dsimp only
    rw [mergeAt_eq htrue]
    dsimp only [Option.bind_eq_bind, Option.bind_some]
    rw [mergeAt_eq (by rwa [List.length_modify])]
    rfl
  | fall ret always conditional next =>
    rw [next] at h ⊢
    have htarget := h _ (List.mem_singleton.mpr rfl)
    rw [if_neg (by simp [ret]), if_neg (by simp [always]), if_neg (by simp [conditional]),
      checkedAdd, if_pos (by omega)]
    dsimp only
    rw [if_pos htarget, mergeAt_eq htarget]
    rfl

/-- The first `match` of a pass is the transfer function of the verifier. -/
theorem scratchWord_eq {uninitialized : Nat → BitVec 32 → ε} {f : VerifyError → ε}
    (hf : ∀ pc k, f (.scratchUninitialized pc k) = uninitialized pc k)
    (hi : checkStatement pc i = .ok ()) (m : BitVec 16) :
    scratchWord uninitialized pc i m = some (match scratchTransfer pc i m with
      | .ok out => .next out
      | .error e => .fail (f e)) := by
  have hbit : i.scratchIndex = some i.k.toNat → scratchBit i.k = some (1#16 <<< i.k.toNat) :=
    fun h => if_pos (checkStatement_scratch hi _ h)
  unfold scratchWord
  rcases hop : i.op with _ | o
  · simp only [isOneOf_none hop, Bool.false_eq_true, if_false, scratchTransfer, hop]
  · have hsel := isOneOf_eq hop
    cases o with
    | ldMem | ldxMem =>
      rw [if_pos (by simp [hsel]), hbit (by simp [scratchIndex, hop])]
      simp only [scratchTransfer, hop, Option.bind_eq_bind, Option.bind_some]
      rw [← hf]
      split_ifs <;> rfl
    | st | stx =>
      rw [if_neg (by simp [hsel]), if_pos (by simp [hsel]),
        hbit (by simp [scratchIndex, hop])]
      simp only [scratchTransfer, hop]
      rfl
    | _ =>
      rw [if_neg (by simp [hsel]), if_neg (by simp [hsel])]
      simp only [scratchTransfer, hop]

/-- **A scratch pass is that of the verifier**, with the errors renamed, on a program that has
passed the structural checks: the induction is on the instructions still to visit. -/
theorem scratchLoop_eq {uninitialized : Nat → BitVec 32 → ε} (f : VerifyError → ε)
    (hf : ∀ pc k, f (.scratchUninitialized pc k) = uninitialized pc k)
    {flow : Nat → Instruction → BitVec 16 → List (Option (BitVec 16)) →
      Option (Turn ε (List (Option (BitVec 16))))}
    (hstatement : ∀ {pc : Nat} {i}, is[pc]? = some i → checkStatement pc i = .ok ())
    (hflow : ∀ {pc : Nat} {i : Instruction} {out : BitVec 16} {incoming}, is[pc]? = some i →
      incoming.length = is.length →
      flow pc i out incoming = some (.next (mergeSuccessors out (successors pc i) incoming))) :
    ∀ {rest : List Instruction} {pc : Nat} {incoming : List (Option (BitVec 16))},
      is.drop pc = rest → incoming.length = is.length →
      scratchLoop uninitialized flow pc rest incoming
        = some ((scratchPass pc rest incoming).mapError f) := by
  intro rest
  induction rest with
  | nil => intro pc incoming _ _; rfl
  | cons i rest ih =>
    intro pc incoming hdrop hlen
    obtain ⟨hi, hdrop'⟩ := drop_eq_cons hdrop
    obtain ⟨hpc, -⟩ := List.getElem?_eq_some_iff.mp hi
    have hslot : incoming[pc]? = some incoming[pc] := List.getElem?_eq_getElem (by omega)
    rw [scratchLoop, scratchPass, hslot]
    dsimp only [Option.bind_eq_bind, Option.bind_some]
    cases incoming[pc] with
    | none => exact ih hdrop' hlen
    | some initialized =>
      dsimp only
      rw [scratchWord_eq hf (hstatement hi)]
      cases scratchTransfer pc i initialized with
      | error e => rfl
      | ok out =>
        dsimp only [Option.bind_some]
        rw [hflow hi hlen, ok_bind]
        exact ih hdrop' (by rw [mergeSuccessors_length]; exact hlen)

theorem forEach_ok {check : Nat → Instruction → Except ε Unit} :
    ∀ {is : List Instruction} {start : Nat}, forEach check start is = .ok () ↔
      ∀ {pc : Nat} {i}, is[pc]? = some i → check (start + pc) i = .ok () := by
  intro is
  induction is with
  | nil => intro start; simp [forEach]
  | cons j rest ih =>
    intro start
    simp only [forEach, bind_eq_ok]
    constructor
    · rintro ⟨⟨⟩, hj, hrest⟩ pc i hi
      cases pc with
      | zero =>
        obtain rfl : j = i := by simpa using hi
        exact hj
      | succ pc =>
        have := ih.mp hrest (by simpa using hi)
        rwa [Nat.add_right_comm, Nat.add_assoc] at this
    · intro h
      refine ⟨(), @h 0 j rfl, ih.mpr fun {pc i} hi => ?_⟩
      have := @h (pc + 1) i (by simpa using hi)
      rwa [← Nat.add_assoc, Nat.add_right_comm] at this

theorem entryWords_length (length : Nat) : (entryWords length).length = length := by
  rw [entryWords, List.length_set, List.length_replicate]

theorem structured_of (hshort : ¬ maxInstructions < is.length)
    (hcheck : forEach (verifyInstruction is.length) 0 is = .ok ()) (hlast : returns is = true) :
    Structured is := by
  have hboth : ∀ {pc : Nat} {i}, is[pc]? = some i →
      checkStatement pc i = .ok () ∧ checkJump is.length pc i = .ok () := by
    intro pc i hi
    obtain ⟨hpc, -⟩ := List.getElem?_eq_some_iff.mp hi
    have h := forEach_ok.mp hcheck hi
    rw [Nat.zero_add, verifyInstruction_eq i (by omega)] at h
    obtain ⟨⟨⟩, hstatement, hjump⟩ := bind_eq_ok.mp h
    exact ⟨hstatement, hjump⟩
  refine ⟨not_lt.mp hshort, fun hi => (hboth hi).1, fun hi => checkJump_ok (hboth hi).2, ?_⟩
  exact last_of_returns (returns_eq is ▸ hlast)

theorem uncheckedPass (h : Structured is) :
    scratchLoop .scratchUninitialized flowUnchecked 0 is (entryWords is.length)
      = some (verifyScratchInitialization is) := by
  have hpass : scratchLoop VerifyError.scratchUninitialized flowUnchecked 0 is
      (entryWords is.length) = some ((scratchPass 0 is (entryWords is.length)).mapError id) :=
    scratchLoop_eq id (fun _ _ => rfl) h.statement
      (fun hi hlen => flowUnchecked_eq fun t ht => hlen ▸ successors_lt_of h.jump h.last hi t ht)
      List.drop_zero (entryWords_length _)
  rw [hpass, verifyScratchInitialization, entryWords]
  cases scratchPass 0 is _ <;> rfl

theorem checkedPass (h : Structured is) :
    scratchLoop .scratchUninitialized (flowChecked is.length) 0 is (entryWords is.length)
      = some ((verifyScratchInitialization is).mapError mapVerifyError) := by
  refine scratchLoop_eq mapVerifyError (fun _ _ => rfl) h.statement
    (fun {pc} {i} {out} {incoming} hi hlen => ?_) List.drop_zero (entryWords_length _)
  obtain ⟨hpc, -⟩ := List.getElem?_eq_some_iff.mp hi
  have hshort := h.short
  rw [← hlen]
  exact flowChecked_eq (by omega) (by rw [hlen]; exact successors_lt_of h.jump h.last hi)

/-! ### Verdicts -/

/-- **The interpreter's checker is the verifier**, and no index or shift of it panics. -/
theorem verifyProgram_eq (is : List Instruction) :
    verifyProgram is = some (Cbpf.verifyProgram is) := by
  unfold verifyProgram Cbpf.verifyProgram
  rw [← verifyStructure_eq]
  cases hstructure : verifyStructure is with
  | error e => rfl
  | ok _ =>
    unfold verifyStructure at hstructure
    split_ifs at hstructure with hempty hlong hreturns
    · obtain ⟨⟨⟩, hcheck, -⟩ := bind_eq_ok.mp hstructure
      exact uncheckedPass (structured_of hlong hcheck hreturns)
    · obtain ⟨⟨⟩, -, hlast⟩ := bind_eq_ok.mp hstructure
      cases hlast

/-- **The translator's checker returns what the interpreter's does.** -/
theorem validateSource_eq (is : List Instruction) : validateSource is = verifyProgram is := by
  unfold validateSource verifyProgram verifyStructure
  by_cases hempty : is.isEmpty = true
  · rw [if_pos hempty, if_pos hempty]
  by_cases hlong : maxInstructions < is.length
  · rw [if_neg hempty, if_neg hempty, if_pos hlong, if_pos hlong]
  rw [if_neg hempty, if_neg hempty, if_neg hlong, if_neg hlong,
    forEach_eq (fun pc i hpc => sourceInstruction_eq i hpc) is 0 (by omega)]
  cases forEach (verifyInstruction is.length) 0 is with
  | error e => rfl
  | ok _ => by_cases hreturns : returns is = true <;> simp [hreturns, ok_bind]

theorem instructionContract_eq (pc : Nat) (i : Instruction) :
    instructionContract pc i = (checkStatement pc i).mapError mapVerifyError := by
  unfold instructionContract
  rw [supported_eq]
  rcases hop : i.op with _ | o
  · simp [checkStatement, hop, Except.mapError, mapVerifyError]
  · simp only [isOneOf_eq hop, checkStatement, hop]
    rcases o with _ | ⟨_ | _ | _⟩ | ⟨_ | _ | _⟩ | _ | _ | _ | _ | _ | _ | _ | _ |
      ⟨_ | _ | _ | _ | _ | _ | _ | _ | _ | _, _ | _⟩ | _ | _ | ⟨_ | _ | _ | _, _ | _⟩ | _ | _ | _ |
      _ <;> simp [absoluteLoads]
    all_goals first | rfl | (split_ifs <;> rfl)

/-- The tests of `validate_profile`: what is outside of the profile is refused. -/
theorem profileInstruction_eq (profile : InputProfile) (pc : Nat) (i : Instruction) :
    profileInstruction profile pc i
      = if outsideProfile i profile then .error (.profileUnsupported pc i.code) else .ok () := by
  have hmod : i.k % 4 = 0 ↔ i.k.toNat % 4 = 0 := by
    rw [← BitVec.toNat_inj, BitVec.toNat_umod]
    exact Iff.rfl
  unfold profileInstruction outsideProfile
  rcases hop : i.op with _ | o
  · simp [isOneOf_none hop]
  · simp only [isOneOf_eq hop, ne_eq, hmod]
    cases profile <;> rcases o with _ | ⟨_ | _ | _⟩ | ⟨_ | _ | _⟩ | _ | _ | _ | _ | _ | _ | _ | _ |
      _ | _ | _ | _ | _ | _ | _ | _ <;> simp [absoluteLoads]
    all_goals split_ifs <;> simp_all

/-- The validator takes the low bits of the offset where the translator takes its residue. -/
theorem profileContract_eq (pc : Nat) (i : Instruction) (profile : InputProfile) :
    profileContract pc i profile = validateProfileContract pc i profile := by
  have hlow : i.k &&& 3 = 0 ↔ i.k.toNat % 4 = 0 := by
    rw [← BitVec.toNat_inj, BitVec.toNat_and]
    exact Nat.and_two_pow_sub_one_eq_mod i.k.toNat 2 ▸ Iff.rfl
  unfold profileContract validateProfileContract outsideProfile
  rcases hop : i.op with _ | o
  · simp [isOneOf_none hop]
  · simp only [isOneOf_eq hop, ne_eq, hlow]
    cases profile <;> rcases o with _ | ⟨_ | _ | _⟩ | ⟨_ | _ | _⟩ | _ | _ | _ | _ | _ | _ | _ | _ |
      _ | _ | _ | _ | _ | _ | _ | _ <;> simp [absoluteLoads]
    all_goals split_ifs <;> simp_all

theorem profileContract_ok_iff {profile : InputProfile} :
    profileContract pc i profile = .ok () ↔ profileInstruction profile pc i = .ok () := by
  rw [profileContract_eq, profileInstruction_eq, validateProfileContract]
  split <;> simp

theorem contractJump_eq (i : Instruction) (hpc : pc ≤ maxInstructions) :
    (if i.isOneOf [.jmpJa] then
      if sourceTarget pc i.k.toNat length = none then .error (.jumpOutOfRange pc) else .ok ()
    else if i.isOneOf conditionalJumps ∧ (sourceTarget pc i.jt.toNat length = none ∨
        sourceTarget pc i.jf.toNat length = none) then .error (.jumpOutOfRange pc)
    else .ok ()) = (checkJump length pc i).mapError mapVerifyError := by
  rw [sourceTarget_eq hpc i.k.isLt, sourceTarget_eq hpc (by omega), sourceTarget_eq hpc (by omega)]
  rcases hop : i.op with _ | o
  · simp [isOneOf_none hop, checkJump, jumpTargets, hop, Except.mapError]
  · simp only [isOneOf_eq hop, checkJump, jumpTargets, hop]
    rcases o with _ | _ | _ | _ | _ | _ | _ | _ | _ | _ | _ | _ | _ | _ |
      ⟨_ | _ | _ | _, _ | _⟩ | _ | _ | _ | _ <;> simp [conditionalJumps]
    all_goals first | rfl | (split_ifs <;> first | rfl | omega)

/-- **One turn of the validator's loop** is one of the verifier's and one of `validate_profile`. -/
theorem contractInstruction_ok_iff {profile : InputProfile} (hpc : pc ≤ maxInstructions) :
    contractInstruction profile length pc i = .ok () ↔
      verifyInstruction length pc i = .ok () ∧ profileInstruction profile pc i = .ok () := by
  rw [verifyInstruction_eq i hpc, contractInstruction, contractJump_eq i hpc,
    instructionContract_eq]
  simp only [bind_eq_ok, mapError_eq_ok]
  constructor
  · rintro ⟨⟨⟩, hstatement, ⟨⟩, hprofile, hjump⟩
    exact ⟨⟨(), hstatement, hjump⟩, profileContract_ok_iff.mp hprofile⟩
  · rintro ⟨⟨⟨⟩, hstatement, hjump⟩, hprofile⟩
    exact ⟨(), hstatement, (), profileContract_ok_iff.mpr hprofile, hjump⟩

theorem contractLoop_ok_iff (profile : InputProfile) (hshort : is.length ≤ maxInstructions) :
    forEach (contractInstruction profile is.length) 0 is = .ok () ↔
      forEach (verifyInstruction is.length) 0 is = .ok () ∧
        validateProfile is profile = .ok () := by
  have hturn : ∀ {pc : Nat} {i}, is[pc]? = some i →
      (contractInstruction profile is.length (0 + pc) i = .ok () ↔
        verifyInstruction is.length (0 + pc) i = .ok () ∧
          profileInstruction profile (0 + pc) i = .ok ()) := by
    intro pc i hi
    obtain ⟨hpc, -⟩ := List.getElem?_eq_some_iff.mp hi
    exact contractInstruction_ok_iff (by omega)
  rw [validateProfile, forEach_ok, forEach_ok, forEach_ok]
  exact ⟨fun h => ⟨fun hi => ((hturn hi).mp (h hi)).1, fun hi => ((hturn hi).mp (h hi)).2⟩,
    fun h _ _ hi => (hturn hi).mpr ⟨h.1 hi, h.2 hi⟩⟩

/-- **The validator accepts what the interpreter's checker accepts within the profile.** -/
theorem validateSourceContract_ok_iff (is : List Instruction) (profile : InputProfile) :
    validateSourceContract is profile = some (.ok ()) ↔
      verifyProgram is = some (.ok ()) ∧ validateProfile is profile = .ok () := by
  unfold validateSourceContract verifyProgram verifyStructure
  by_cases hempty : is.isEmpty = true
  · rw [if_pos hempty, if_pos hempty]
    simp
  by_cases hlong : maxInstructions < is.length
  · rw [if_neg hempty, if_neg hempty, if_pos hlong, if_pos hlong]
    simp
  rw [if_neg hempty, if_neg hempty, if_neg hlong, if_neg hlong]
  have hloop := contractLoop_ok_iff profile (not_lt.mp hlong)
  cases hcontract : forEach (contractInstruction profile is.length) 0 is with
  | error e =>
    refine ⟨fun h => (nomatch h), fun ⟨hverify, hprofile⟩ => ?_⟩
    cases hcheck : forEach (verifyInstruction is.length) 0 is with
    | error e' => simp [hcheck, error_bind] at hverify
    | ok _ => simp [hloop.mpr ⟨hcheck, hprofile⟩] at hcontract
  | ok _ =>
    obtain ⟨hcheck, hprofile⟩ := hloop.mp hcontract
    by_cases hreturns : returns is = true
    · have hs := structured_of hlong hcheck hreturns
      simp only [hcheck, hprofile, hreturns, ok_bind, not_true_eq_false, if_true, if_false,
        checkedPass hs, uncheckedPass hs, Option.some.injEq, mapError_eq_ok, and_true]
    · simp [hcheck, hreturns, ok_bind]

/-! ### The checkers of the translation -/

theorem checkSource_eq (length pc : Nat) (i : Instruction) :
    Translate.checkSource length pc i = (do checkStatement pc i; checkJump length pc i) := by
  unfold Translate.checkSource
  rcases hop : i.op with _ | o
  · simp [checkStatement, hop, error_bind]
  · simp only [checkStatement, checkJump, jumpTargets, hop]
    rcases o with _ | ⟨_ | _ | _⟩ | ⟨_ | _ | _⟩ | _ | _ | _ | _ | _ | _ | _ | _ |
      ⟨_ | _ | _ | _ | _ | _ | _ | _ | _ | _, _ | _⟩ | _ | _ | ⟨_ | _ | _ | _, _ | _⟩ | _ | _ | _ |
      _ <;> simp [ok_bind, bind_ok]
    all_goals split_ifs <;> first | rfl | omega

theorem validateProfile_eq (is : List Instruction) (profile : InputProfile) :
    validateProfile is profile = Translate.validateProfile profile 0 is := by
  unfold validateProfile
  generalize 0 = start
  induction is generalizing start with
  | nil => rfl
  | cons i rest ih =>
    rw [forEach, profileInstruction_eq, Translate.validateProfile]
    split
    · rfl
    · rw [ok_bind, ih]

theorem checkSources_eq (length start : Nat) (is : List Instruction) :
    Translate.checkSources length start is = checkInstructions length start is := by
  induction is generalizing start with
  | nil => rfl
  | cons i rest ih =>
    rw [Translate.checkSources, checkInstructions, checkSource_eq, ih, bind_assoc]

/-- **The translator's checker** is the one that `Translate` runs. -/
theorem validateSource_some (is : List Instruction) :
    validateSource is = some (Translate.validateSource is) := by
  rw [validateSource_eq, verifyProgram_eq, Cbpf.verifyProgram, Cbpf.verifyStructure,
    Translate.validateSource, checkSources_eq]
  by_cases hempty : is.isEmpty = true
  · simp [hempty, error_bind]
  by_cases hlong : maxInstructions < is.length
  · simp [hempty, hlong, error_bind]
  cases checkInstructions is.length 0 is with
  | error e => simp [hempty, hlong, error_bind]
  | ok _ =>
    by_cases hlast : (is.getLast?.map isReturn).getD false = true <;>
      simp [hempty, hlong, hlast, ok_bind, error_bind]

theorem contractInstructions_eq (profile : InputProfile) :
    ∀ (is : List Instruction) (start : Nat), start + is.length ≤ maxInstructions →
      forEach (contractInstruction profile length) start is
        = contractInstructions length profile start is := by
  intro is
  induction is with
  | nil => intro start _; rfl
  | cons i rest ih =>
    intro start hstart
    rw [List.length_cons] at hstart
    rw [forEach, contractInstructions, contractInstruction, contractJump_eq i (by omega),
      instructionContract_eq, profileContract_eq, ih (start + 1) (by omega)]
    simp only [bind_assoc, validateSourceInstructionContract]

/-- **The validator's checker** is the one that the validation of images runs. -/
theorem validateSourceContract_some (is : List Instruction) (profile : InputProfile) :
    validateSourceContract is profile = some (Cbpf.validateSourceContract is profile) := by
  unfold validateSourceContract Cbpf.validateSourceContract
  by_cases hempty : is.isEmpty = true
  · simp [hempty]
  by_cases hlong : maxInstructions < is.length
  · simp [hempty, hlong]
  rw [if_neg hempty, if_neg hempty, if_neg hlong, if_neg hlong, ← returns_eq,
    ← contractInstructions_eq profile is 0 (by omega)]
  cases hcontract : forEach (contractInstruction profile is.length) 0 is with
  | error e => rfl
  | ok _ =>
    obtain ⟨hcheck, -⟩ := (contractLoop_ok_iff profile (not_lt.mp hlong)).mp hcontract
    by_cases hreturns : returns is = true
    · simp [hreturns, ok_bind, checkedPass (structured_of hlong hcheck hreturns),
        validateScratchInitialization]
    · simp [hreturns, ok_bind]

/-! ### Agreement -/

/-- **The three checkers agree.**  On every sequence of instructions the interpreter's and the
translator's checker return the same verdict, the error included, and for every profile the
validator accepts exactly what both they and `validate_profile` accept. -/
theorem checkers_agree (is : List Instruction) :
    (∃ verdict, verifyProgram is = some verdict ∧ validateSource is = some verdict) ∧
      ∀ profile, validateSourceContract is profile = some (.ok ()) ↔
        verifyProgram is = some (.ok ()) ∧ validateProfile is profile = .ok () :=
  ⟨⟨Cbpf.verifyProgram is, verifyProgram_eq is, (validateSource_eq is).trans (verifyProgram_eq is)⟩,
    validateSourceContract_ok_iff is⟩

end Acceptance

end KernelAx.Cbpf

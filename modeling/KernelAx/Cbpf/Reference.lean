import KernelAx.Cbpf.Safety
import KernelAx.Cbpf.Translate

/-!
# Classic BPF — the reference evaluator of an image

A translated image keeps its source and can be evaluated without running its code. That evaluator
is an interpreter of its own: an opcode it does not know and a run that does not return end with
zero, where `Program::evaluate` panics.

On a verified program neither happens, so the two interpreters take the same iterations and return
the same value.
-/

namespace KernelAx.Cbpf.Translate

/-! ### The evaluator -/

def sourceAlu (op : AluOp) (src : Source) (i : Instruction) (l : Locals) : Iteration :=
  let a := l.accumulator
  let x := l.index
  let set (v : BitVec 32) : Iteration := .next { l with accumulator := v, pc := l.pc + 1 }
  match op, src with
  | .add, .k => set (a + i.k)
  | .add, .x => set (a + x)
  | .sub, .k => set (a - i.k)
  | .sub, .x => set (a - x)
  | .mul, .k => set (a * i.k)
  | .mul, .x => set (a * x)
  | .div, .k => if i.k = 0 then .panic else set (a / i.k)
  | .div, .x => if x = 0 then .return 0 else set (a / x)
  | .or, .k => set (a ||| i.k)
  | .or, .x => set (a ||| x)
  | .and, .k => set (a &&& i.k)
  | .and, .x => set (a &&& x)
  | .lsh, .k => set (wrappingShl a i.k)
  | .lsh, .x => set (wrappingShl a (x &&& 31))
  | .rsh, .k => set (wrappingShr a i.k)
  | .rsh, .x => set (wrappingShr a (x &&& 31))
  | .mod, .k => if i.k = 0 then .panic else set (a % i.k)
  | .mod, .x => if x = 0 then .return 0 else set (a % x)
  | .xor, .k => set (a ^^^ i.k)
  | .xor, .x => set (a ^^^ x)

/-- A load that fails ends the program with zero. -/
def sourceLoad (value : Option (BitVec 32)) (next : BitVec 32 → Locals) : Iteration :=
  match value with
  | none => .return 0
  | some v => .next (next v)

def sourceInstruction (input : Input) (i : Instruction) (l : Locals) : Iteration :=
  let a := l.accumulator
  let x := l.index
  let setA (v : BitVec 32) : Locals := { l with accumulator := v, pc := l.pc + 1 }
  let setX (v : BitVec 32) : Locals := { l with index := v, pc := l.pc + 1 }
  -- indexing behind the scratch words panics
  let scratch (next : Locals) : Iteration :=
    if i.k.toNat < scratchWords then .next next else .panic
  match i.op with
  | some .ldImm => .next (setA i.k)
  | some (.ldAbs width) =>
    sourceLoad (match ancillaryFromOffset i.k with
      | some field => some ((input.ancillary field).getD 0)
      | none => input.load i.k width) setA
  | some (.ldInd width) =>
    -- `x.checked_add(k)`
    if 2 ^ 32 ≤ x.toNat + i.k.toNat then .return 0
    else sourceLoad (input.load (x + i.k) width) setA
  | some .ldMem => scratch (setA (l.scratch i.k.toNat))
  | some .ldLen => .next (setA input.len)
  | some .ldxImm => .next (setX i.k)
  | some .ldxMem => scratch (setX (l.scratch i.k.toNat))
  | some .ldxLen => .next (setX input.len)
  | some .ldxBMsh => sourceLoad (input.load i.k .byte) fun v => setX ((v &&& 0xf) <<< 2)
  | some .st =>
    scratch { l with scratch := Function.update l.scratch i.k.toNat a, pc := l.pc + 1 }
  | some .stx =>
    scratch { l with scratch := Function.update l.scratch i.k.toNat x, pc := l.pc + 1 }
  | some (.alu op src) => sourceAlu op src i l
  | some .aluNeg => .next (setA (-a))
  | some .jmpJa => .next { l with pc := l.pc + (1 + i.k.toNat) }
  | some (.jmp op src) =>
    let o := if src = .x then x else i.k
    let c : Bool := match op with
      | .jeq => a = o
      | .jgt => o < a
      | .jge => o ≤ a
      | .jset => a &&& o ≠ 0
    .next { l with pc := l.pc + (1 + (if c then i.jt else i.jf).toNat) }
  | some .retK => .return i.k
  | some .retA => .return a
  | some .miscTax => .next (setX a)
  | some .miscTxa => .next (setA x)
  | none => .return 0

/-- The loop with `fuel` iterations left; behind it the value is zero. -/
def sourceLoop (instructions : List Instruction) (input : Input) : Nat → Locals → Option (BitVec 32)
  | 0, _ => some 0
  | fuel + 1, l =>
    match instructions[l.pc]? with
    | none => none
    | some i =>
      match sourceInstruction input i l with
      | .next l' => sourceLoop instructions input fuel l'
      | .return value => some value
      | .panic => none

/-- `evaluate_source`; a panic is `none`. -/
def evaluateSource (instructions : List Instruction) (input : Input) : Option (BitVec 32) :=
  sourceLoop instructions input instructions.length .init

def CodeImage.evaluate (image : CodeImage) (input : Input) : Option (BitVec 32) :=
  evaluateSource image.source input

/-! ### The two interpreters agree -/

theorem sourceAlu_eq (op : AluOp) (src : Source) (i : Instruction) (l : Locals) :
    sourceAlu op src i l = evaluateAlu op src i l := by
  cases op <;> cases src <;> rfl

theorem sourceCondition_eq (op : JmpOp) (a o : BitVec 32) :
    (match op with
      | .jeq => decide (a = o)
      | .jgt => decide (o < a)
      | .jge => decide (o ≤ a)
      | .jset => decide (a &&& o ≠ 0)) = op.holds a o := by
  cases op <;> simp [JmpOp.holds, BitVec.lt_def, BitVec.le_def]

/-- **One iteration.** On an opcode it knows the evaluator does what the interpreter does. -/
theorem sourceInstruction_eq {input : Input} {i : Instruction} {l : Locals} (hop : i.op ≠ none) :
    sourceInstruction input i l = evaluateInstruction input i l := by
  rcases h : i.op with _ | o
  · exact absurd h hop
  cases o with
  | ldAbs width =>
    simp only [sourceInstruction, evaluateInstruction, h, sourceLoad]
    cases ancillaryFromOffset i.k with
    | some field => rfl
    | none => cases input.load i.k width <;> rfl
  | ldInd width =>
    simp only [sourceInstruction, evaluateInstruction, h]
    by_cases hfits : l.index.toNat + i.k.toNat < 2 ^ 32
    · rw [if_pos hfits, if_neg (not_le.mpr hfits)]
      cases input.load (l.index + i.k) width <;> rfl
    · rw [if_neg hfits, if_pos (not_lt.mp hfits)]
  | ldxBMsh =>
    simp only [sourceInstruction, evaluateInstruction, h]
    cases input.load i.k .byte <;> rfl
  | alu op src =>
    simp only [sourceInstruction, evaluateInstruction, h]
    exact sourceAlu_eq op src i l
  | jmpJa => simp only [sourceInstruction, evaluateInstruction, h, Nat.add_assoc]
  | jmp op src =>
    simp only [sourceInstruction, evaluateInstruction, h, sourceCondition_eq, Nat.add_assoc]
    cases src <;> rfl
  | _ => simp only [sourceInstruction, evaluateInstruction, h]

/-- **The run.** A value the interpreter returns is the value of the evaluator; the induction is on
the iterations left, and the opcodes are known because the program passed its checks. -/
theorem sourceLoop_eq {is : List Instruction} {input : Input} (hwf : WellFormed is) {fuel : Nat}
    {steps n : Nat} {l : Locals} {value : BitVec 32}
    (h : evaluateLoop is input fuel steps l = some (value, n)) :
    sourceLoop is input fuel l = some value := by
  induction fuel generalizing steps l with
  | zero => cases h
  | succ fuel ih =>
    unfold evaluateLoop at h
    unfold sourceLoop
    cases hi : is[l.pc]? with
    | none => simp [hi] at h
    | some i =>
      simp only [hi] at h ⊢
      rw [sourceInstruction_eq (checkStatement_op (hwf.statement hi))]
      cases hstep : evaluateInstruction input i l with
      | next l' =>
        rw [hstep] at h
        exact ih h
      | «return» v =>
        rw [hstep] at h
        cases h
        rfl
      | panic => simp [hstep] at h

theorem translateProgram_source {source : List Instruction} {profile : InputProfile}
    {image : CodeImage} (h : translateProgram source profile = .ok image) :
    image.source = source := by
  obtain ⟨⟨⟩, -, h⟩ := bind_eq_ok.mp h
  obtain ⟨⟨⟩, -, h⟩ := bind_eq_ok.mp h
  obtain ⟨⟨⟩, -, h⟩ := bind_eq_ok.mp h
  obtain ⟨entry, -, h⟩ := bind_eq_ok.mp h
  obtain ⟨⟨a, boundaries, map⟩, -, h⟩ := bind_eq_ok.mp h
  obtain ⟨resolved, -, h⟩ := bind_eq_ok.mp h
  split at h
  · cases h
  obtain ⟨stop, -, h⟩ := bind_eq_ok.mp h
  obtain ⟨⟨⟩, -, h⟩ := bind_eq_ok.mp h
  cases h
  rfl

end KernelAx.Cbpf.Translate

namespace KernelAx.Cbpf

/-- **The reference evaluators agree**: for every verified program, every profile it is translated
with and every input, the image evaluates to the value that the program evaluates to. -/
theorem image_evaluate (program : Program) {profile : InputProfile} {image : Translate.CodeImage}
    (h : program.translate profile = .ok image) (input : Input) :
    ∃ value, evaluate program.instructions input = some value ∧
      image.evaluate input = some value := by
  have hwf := wellFormed_of_verify program.verified
  obtain ⟨value, steps, hrun, -⟩ : ∃ value n,
      evaluateCounted program.instructions input = some (value, n) ∧
        n ≤ 0 + program.instructions.length :=
    hwf.evaluateLoop_returns _ 0 hwf.pos (Nat.sub_le _ _)
  refine ⟨value, ?_, ?_⟩
  · rw [evaluate, hrun]
    rfl
  · rw [Translate.CodeImage.evaluate, Translate.translateProgram_source h]
    exact Translate.sourceLoop_eq hwf hrun

theorem image_evaluate_largeHalf :
    ∃ image, (Program.mk largeHalfSource largeHalfSource_verified).translate .packetBytesBigEndian
        = .ok image ∧
      image.evaluate (bytesInput [1, 2, 3, 4]) = some 308 := by
  have htranslates : ((Program.mk largeHalfSource largeHalfSource_verified).translate
      .packetBytesBigEndian).toOption.isSome := by
    decide +kernel
  have hreturns : evaluate largeHalfSource (bytesInput [1, 2, 3, 4]) = some 308 := by
    decide +kernel
  cases himage : (Program.mk largeHalfSource largeHalfSource_verified).translate
      .packetBytesBigEndian with
  | error e =>
    rw [himage] at htranslates
    cases htranslates
  | ok image =>
    obtain ⟨value, hprogram, hvalue⟩ := image_evaluate _ himage (bytesInput [1, 2, 3, 4])
    rw [hreturns] at hprogram
    cases hprogram
    exact ⟨image, rfl, hvalue⟩

end KernelAx.Cbpf

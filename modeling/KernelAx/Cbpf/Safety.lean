import KernelAx.Cbpf.Verified

/-!
# Classic BPF — verified programs run safely

The interpreter on a verified program: every iteration fetches an instruction of the program, does
not reach an unreachable arm, keeps to the scratch memory, divides by no zero and shifts within the
word; the run returns a value within as many iterations as the program has instructions.
-/

namespace KernelAx.Cbpf

/-! ### What an iteration touches -/

/-- The scratch word that an instruction reads or writes. -/
def Instruction.scratchIndex (i : Instruction) : Option Nat :=
  match i.op with
  | some .ldMem | some .ldxMem | some .st | some .stx => some i.k.toNat
  | _ => none

/-- The divisor, where an iteration divides; X is compared with zero before. -/
def Instruction.divisor (i : Instruction) (l : Locals) : Option (BitVec 32) :=
  match i.op with
  | some (.alu .div .k) | some (.alu .mod .k) => some i.k
  | some (.alu .div .x) | some (.alu .mod .x) => if l.index = 0 then none else some l.index
  | _ => none

/-- The distance, where an iteration shifts. -/
def Instruction.shift (i : Instruction) (l : Locals) : Option Nat :=
  match i.op with
  | some (.alu .lsh .k) | some (.alu .rsh .k) => some i.k.toNat
  | some (.alu .lsh .x) | some (.alu .rsh .x) => some (l.index &&& 31).toNat
  | _ => none

/-- An iteration that does not leave the program, its operations or its scratch memory. -/
structure SafeIteration (is : List Instruction) (input : Input) (l : Locals) : Prop where
  bounds : l.pc < is.length
  supported : ∀ i ∈ is[l.pc]?, i.op ≠ none
  scratch : ∀ i ∈ is[l.pc]?, ∀ index ∈ i.scratchIndex, index < scratchWords
  divisor : ∀ i ∈ is[l.pc]?, ∀ divisor ∈ i.divisor l, divisor ≠ 0
  shift : ∀ i ∈ is[l.pc]?, ∀ distance ∈ i.shift l, distance < 32
  panic : ∀ i ∈ is[l.pc]?, evaluateInstruction input i l ≠ .panic

/-- The locals with which an iteration can start. -/
inductive Visits (is : List Instruction) (input : Input) : Locals → Prop
  | init : Visits is input .init
  | next {l l' : Locals} {i : Instruction} (visited : Visits is input l)
      (fetched : is[l.pc]? = some i) (stepped : evaluateInstruction input i l = .next l') :
      Visits is input l'

/-! ### One iteration -/

variable {pc : Nat} {i : Instruction}

section

variable (h : checkStatement pc i = .ok ())
include h

theorem checkStatement_op : i.op ≠ none := by
  intro hop
  simp [checkStatement, hop] at h

theorem checkStatement_scratch :
    ∀ index ∈ i.scratchIndex, index < scratchWords := by
  intro index hindex
  unfold checkStatement at h
  unfold Instruction.scratchIndex at hindex
  rcases hop : i.op with _ | o
  · simp [hop] at hindex
  cases o with
  | ldMem | ldxMem | st | stx =>
    simp only [hop, Option.mem_def, Option.some.injEq] at h hindex
    split at h
    · cases h
    · omega
  | _ => simp [hop] at hindex

theorem checkStatement_divisor {l : Locals} :
    ∀ divisor ∈ i.divisor l, divisor ≠ 0 := by
  intro divisor hdivisor
  unfold checkStatement at h
  unfold Instruction.divisor at hdivisor
  rcases hop : i.op with _ | o
  · simp [hop] at hdivisor
  cases o with
  | alu op src =>
    cases op <;> cases src <;> simp_all
    all_goals rw [← hdivisor.2]; exact hdivisor.1
  | _ => simp [hop] at hdivisor

theorem checkStatement_shift {l : Locals} :
    ∀ distance ∈ i.shift l, distance < 32 := by
  intro distance hdistance
  unfold checkStatement at h
  unfold Instruction.shift at hdistance
  have hmask : (l.index &&& 31).toNat < 32 := by
    have := @Nat.and_le_right l.index.toNat 31
    rw [BitVec.toNat_and]
    simp only [BitVec.reduceToNat]
    omega
  rcases hop : i.op with _ | o
  · simp [hop] at hdistance
  cases o with
  | alu op src =>
    cases op <;> cases src <;> simp only [hop, Option.mem_def, Option.some.injEq, reduceCtorEq]
      at h hdistance
    case lsh.k | rsh.k =>
      split at h
      · cases h
      · omega
    case lsh.x | rsh.x => omega
  | _ => simp [hop] at hdistance

end

/-! ### Runs -/

namespace WellFormed

variable {is : List Instruction} {input : Input}

theorem pos (h : WellFormed is) : 0 < is.length := List.length_pos_iff.mpr h.nonempty

theorem visits_lt (h : WellFormed is) {l : Locals} (hl : Visits is input l) : l.pc < is.length := by
  induction hl with
  | init => exact h.pos
  | next visited fetched stepped ih =>
    exact h.successors_lt fetched _ (evaluateInstruction_next stepped)

theorem visits_safe (h : WellFormed is) {l : Locals} (hl : Visits is input l) :
    SafeIteration is input l where
  bounds := h.visits_lt hl
  supported _ hi := checkStatement_op (h.statement hi)
  scratch _ hi := checkStatement_scratch (h.statement hi)
  divisor _ hi := checkStatement_divisor (h.statement hi)
  shift _ hi := checkStatement_shift (h.statement hi)
  panic _ hi := evaluateInstruction_ne_panic (h.statement hi)

/-- The loop returns: an iteration that goes on goes forward, so the instructions behind `pc` bound
the iterations that are left. -/
theorem evaluateLoop_returns (h : WellFormed is) (fuel : Nat) :
    ∀ (steps : Nat) {l : Locals}, l.pc < is.length → is.length - l.pc ≤ fuel →
      ∃ value n, evaluateLoop is input fuel steps l = some (value, n) ∧
        n ≤ steps + (is.length - l.pc) := by
  induction fuel with
  | zero =>
    intro steps l hlt hfuel
    omega
  | succ fuel ih =>
    intro steps l hlt hfuel
    have hi : is[l.pc]? = some is[l.pc] := List.getElem?_eq_getElem hlt
    simp only [evaluateLoop, hi]
    cases hstep : evaluateInstruction input is[l.pc] l with
    | next l' =>
      have hsucc := evaluateInstruction_next hstep
      have hforward := lt_of_mem_successors hsucc
      have hinside := h.successors_lt hi _ hsucc
      obtain ⟨value, n, hrun, hn⟩ := ih (steps + 1) hinside (by omega)
      exact ⟨value, n, hrun, by omega⟩
    | «return» value => exact ⟨value, steps + 1, rfl, by omega⟩
    | panic => exact absurd hstep (evaluateInstruction_ne_panic (h.statement hi))

end WellFormed

/-- **Verified programs run safely**: for every input the evaluation of an accepted program returns
a value within as many iterations as it has instructions, and each iteration is safe. -/
theorem evaluate_safe {instructions : List Instruction} {p : Program}
    (h : Program.verify instructions = .ok p) (input : Input) :
    p.instructions = instructions ∧
    (∃ value steps, evaluateCounted p.instructions input = some (value, steps) ∧
      steps ≤ p.instructions.length ∧ evaluate p.instructions input = some value) ∧
    ∀ l, Visits p.instructions input l → SafeIteration p.instructions input l := by
  obtain ⟨hsame, hwf⟩ := verify_ok h
  obtain ⟨value, steps, hrun, hsteps⟩ : ∃ value n,
      evaluateCounted p.instructions input = some (value, n) ∧ n ≤ 0 + p.instructions.length :=
    hwf.evaluateLoop_returns _ 0 hwf.pos (Nat.sub_le _ _)
  refine ⟨hsame, ⟨value, steps, hrun, by omega, ?_⟩, fun l hl => hwf.visits_safe hl⟩
  rw [evaluate, hrun]
  rfl

/-- Loads a half word of the packet and, if it is large, keeps it in scratch memory, loads it back,
divides it by ten and shifts the quotient. -/
def largeHalfSource : List Instruction :=
  [.statement (.ldAbs .half) 2, .jump (.jmp .jgt .k) 100 0 5, .statement .st 3,
    .statement .ldMem 3, .statement (.alu .div .k) 10, .statement (.alu .lsh .k) 2,
    .statement .retA 0, .statement .retK 0]

theorem largeHalfSource_verified : verifyProgram largeHalfSource = .ok () := by decide +kernel

/-- On the packet `01 02 03 04` the program takes seven iterations and returns `772 / 10 * 4`. -/
theorem evaluate_safe_largeHalf :
    ∃ p : Program, Program.verify largeHalfSource = .ok p ∧
      evaluateCounted p.instructions (bytesInput [1, 2, 3, 4]) = some (308, 7) ∧
      ∀ l, Visits p.instructions (bytesInput [1, 2, 3, 4]) l →
        SafeIteration p.instructions (bytesInput [1, 2, 3, 4]) l := by
  have haccepted := verify_of largeHalfSource_verified
  have hvalue : evaluateCounted largeHalfSource (bytesInput [1, 2, 3, 4]) = some (308, 7) := by
    decide +kernel
  exact ⟨_, haccepted, hvalue, (evaluate_safe haccepted _).2.2⟩

end KernelAx.Cbpf

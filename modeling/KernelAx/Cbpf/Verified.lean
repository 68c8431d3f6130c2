import KernelAx.Cbpf.Program
import KernelAx.Transaction

/-!
# Classic BPF — what verification establishes

A program is `WellFormed` when every instruction passes its own checks, every jump stays inside,
the last instruction returns, and there is an assignment of initialized scratch words that is
closed under the control flow (`ScratchClosed`). The interpreter and the native code both rely
on nothing else.
-/

namespace KernelAx.Cbpf

/-! ### Sets of scratch words -/

/-- Every word of `m` is a word of `m'`. -/
def ScratchSubset (m m' : BitVec 16) : Prop := ∀ i, m.getLsbD i = true → m'.getLsbD i = true

theorem ScratchSubset.refl (m : BitVec 16) : ScratchSubset m m := fun _ h => h

theorem ScratchSubset.trans {m₁ m₂ m₃ : BitVec 16} (h : ScratchSubset m₁ m₂)
    (h' : ScratchSubset m₂ m₃) : ScratchSubset m₁ m₃ := fun i hi => h' i (h i hi)

theorem scratchSubset_and_left (m m' : BitVec 16) : ScratchSubset (m &&& m') m := by
  intro i hi
  simp only [BitVec.getLsbD_and, Bool.and_eq_true] at hi
  exact hi.1

theorem scratchSubset_and_right (m m' : BitVec 16) : ScratchSubset (m &&& m') m' := by
  intro i hi
  simp only [BitVec.getLsbD_and, Bool.and_eq_true] at hi
  exact hi.2

theorem getLsbD_bit (k i : Nat) : (1#16 <<< k).getLsbD i = (decide (i = k) && decide (i < 16)) := by
  simp only [BitVec.getLsbD_shiftLeft, BitVec.getLsbD_one]
  by_cases hlt : i < 16
  · by_cases hki : i < k
    · have : i ≠ k := by omega
      simp [hki, this]
    · by_cases he : i = k
      · subst he
        simp [hlt]
      · have : i - k ≠ 0 := by omega
        simp [hki, he, this]
  · simp [hlt]

/-- A load passes the analysis only if its word is in the set. -/
theorem getLsbD_of_and_bit_ne_zero {m : BitVec 16} {k : Nat} (h : m &&& (1#16 <<< k) ≠ 0) :
    m.getLsbD k = true := by
  by_contra hk
  refine h (BitVec.eq_of_getLsbD_eq fun i hi => ?_)
  rw [BitVec.getLsbD_and, getLsbD_bit]
  by_cases he : i = k <;> simp [hk, he]

/-! ### Well-formed programs -/

/-- `inc pc` is a set of words initialized on every path to `pc`: each instruction's loads find
their word in it, and what is left of it after the instruction holds at every successor. -/
structure ScratchClosed (is : List Instruction) (inc : Nat → Option (BitVec 16)) : Prop where
  entry : inc 0 = some 0
  step : ∀ {pc : Nat} {i : Instruction} {m : BitVec 16}, is[pc]? = some i → inc pc = some m →
    ∃ out, scratchTransfer pc i m = .ok out ∧
      ∀ t ∈ successors pc i, ∃ m', inc t = some m' ∧ ScratchSubset m' out

/-- What the checks of `verify` establish, without the passes that establish it. -/
structure WellFormed (is : List Instruction) : Prop where
  nonempty : is ≠ []
  statement : ∀ {pc : Nat} {i}, is[pc]? = some i → checkStatement pc i = .ok ()
  jump : ∀ {pc : Nat} {i}, is[pc]? = some i → ∀ t ∈ jumpTargets pc i, t < is.length
  last : ∃ i, is.getLast? = some i ∧ isReturn i = true
  scratch : ∃ inc, ScratchClosed is inc

/-- What a program has after the structural checks. -/
structure Structured (is : List Instruction) : Prop where
  short : is.length ≤ maxInstructions
  statement : ∀ {pc : Nat} {i}, is[pc]? = some i → checkStatement pc i = .ok ()
  jump : ∀ {pc : Nat} {i}, is[pc]? = some i → ∀ t ∈ jumpTargets pc i, t < is.length
  last : ∃ i, is.getLast? = some i ∧ isReturn i = true

/-! ### The verifier -/

variable {is rest : List Instruction} {pc : Nat} {i : Instruction}

theorem drop_eq_cons (h : is.drop pc = i :: rest) :
    is[pc]? = some i ∧ is.drop (pc + 1) = rest := by
  have hhead := congrArg List.head? h
  refine ⟨by simpa using hhead, ?_⟩
  rw [← List.drop_drop, h]
  rfl

theorem last_of_returns (h : (is.getLast?.map isReturn).getD false = true) :
    ∃ i, is.getLast? = some i ∧ isReturn i = true := by
  cases hl : is.getLast? with
  | none => simp [hl] at h
  | some i => exact ⟨i, rfl, by simpa [hl] using h⟩

/-- What a loop over the instructions has checked, if it checks `P` at each. -/
theorem forall_of_loop {L : Nat → List Instruction → Prop} {P : Nat → Instruction → Prop}
    (hcons : ∀ {start i rest}, L start (i :: rest) → P start i ∧ L (start + 1) rest) :
    ∀ {start : Nat}, L start is → is[pc]? = some i → P (start + pc) i := by
  induction is generalizing pc with
  | nil => intro start _ hi; simp at hi
  | cons j rest ih =>
    intro start h hi
    cases pc with
    | zero =>
      obtain rfl : j = i := by simpa using hi
      exact (hcons h).1
    | succ pc =>
      have := ih (hcons h).2 (by simpa using hi)
      rwa [Nat.add_right_comm, Nat.add_assoc] at this

theorem checkInstructions_ok {length start : Nat} (h : checkInstructions length start is = .ok ())
    (hi : is[pc]? = some i) :
    checkStatement (start + pc) i = .ok () ∧ checkJump length (start + pc) i = .ok () := by
  refine forall_of_loop (L := fun start is => checkInstructions length start is = .ok ())
    (P := fun pc i => checkStatement pc i = .ok () ∧ checkJump length pc i = .ok ())
    (fun {_ _ _} h => ?_) h hi
  simp only [checkInstructions, bind_eq_ok] at h
  obtain ⟨⟨⟩, hs, ⟨⟩, hj, hr⟩ := h
  exact ⟨⟨hs, hj⟩, hr⟩

theorem checkJump_ok {length : Nat} (h : checkJump length pc i = .ok ()) :
    ∀ t ∈ jumpTargets pc i, t < length := by
  unfold checkJump at h
  split at h
  · rename_i hall
    simpa using hall
  · cases h

/-- A slot that has been refined still holds, with fewer words. -/
def Refines (slot' slot : Option (BitVec 16)) : Prop :=
  ∀ m, slot = some m → ∃ m', slot' = some m' ∧ ScratchSubset m' m

theorem Refines.refl (slot : Option (BitVec 16)) : Refines slot slot :=
  fun m h => ⟨m, h, .refl m⟩

theorem Refines.trans {a b c : Option (BitVec 16)} (h : Refines a b) (h' : Refines b c) :
    Refines a c := by
  intro m hm
  obtain ⟨m₁, h₁, s₁⟩ := h' m hm
  obtain ⟨m₂, h₂, s₂⟩ := h m₁ h₁
  exact ⟨m₂, h₂, s₂.trans s₁⟩

theorem mergeInitialized_refines (slot : Option (BitVec 16)) (out : BitVec 16) :
    Refines (mergeInitialized slot out) slot := by
  intro m hm
  subst hm
  exact ⟨m &&& out, rfl, scratchSubset_and_left m out⟩

theorem mergeInitialized_subset (slot : Option (BitVec 16)) (out : BitVec 16) :
    ∃ m, mergeInitialized slot out = some m ∧ ScratchSubset m out := by
  cases slot with
  | none => exact ⟨out, rfl, .refl out⟩
  | some m => exact ⟨m &&& out, rfl, scratchSubset_and_right m out⟩

@[simp] theorem mergeSuccessors_length (out : BitVec 16) (targets : List Nat)
    (incoming : List (Option (BitVec 16))) :
    (mergeSuccessors out targets incoming).length = incoming.length := by
  induction targets generalizing incoming with
  | nil => rfl
  | cons t ts ih =>
    have := ih (incoming.modify t fun slot => mergeInitialized slot out)
    simpa [mergeSuccessors] using this

/-- A merge only refines slots. -/
theorem mergeSuccessors_refines (out : BitVec 16) (targets : List Nat)
    (incoming : List (Option (BitVec 16))) (p : Nat) :
    Refines ((mergeSuccessors out targets incoming)[p]?.join) (incoming[p]?.join) := by
  induction targets generalizing incoming with
  | nil => exact .refl _
  | cons t ts ih =>
    refine (ih (incoming.modify t fun slot => mergeInitialized slot out)).trans ?_
    rw [List.getElem?_modify]
    cases h : incoming[p]? with
    | none => exact .refl _
    | some slot =>
      by_cases e : t = p
      · simpa [e] using mergeInitialized_refines slot out
      · simpa [e] using Refines.refl slot

/-- After a merge, every target's slot is contained in what was merged. -/
theorem mergeSuccessors_target (out : BitVec 16) {targets : List Nat}
    {incoming : List (Option (BitVec 16))} {t : Nat} (ht : t ∈ targets)
    (hlt : t < incoming.length) :
    ∃ m, (mergeSuccessors out targets incoming)[t]?.join = some m ∧ ScratchSubset m out := by
  induction targets generalizing incoming with
  | nil => cases ht
  | cons u us ih =>
    rcases List.mem_cons.mp ht with rfl | hmem
    · obtain ⟨m, hm, hsub⟩ := mergeInitialized_subset incoming[t] out
      have hhead : (incoming.modify t fun slot => mergeInitialized slot out)[t]?.join = some m := by
        simp [hlt, hm]
      obtain ⟨m', hm', hsub'⟩ := mergeSuccessors_refines out us _ t m hhead
      exact ⟨m', hm', hsub'.trans hsub⟩
    · have hlt' : t < (incoming.modify u fun slot => mergeInitialized slot out).length := by
        simpa using hlt
      exact ih hmem hlt'

theorem lt_of_mem_successors {t : Nat} (h : t ∈ successors pc i) : pc < t := by
  unfold successors jumpTargets at h
  rcases hop : i.op with _ | o
  · simp [hop] at h
    omega
  · cases o <;> simp [hop] at h <;> omega

/-- The instruction's loads find their word, and its successors what is left. -/
def ClosedAt (inc : Nat → Option (BitVec 16)) (p : Nat) (i : Instruction) (m : BitVec 16) : Prop :=
  ∃ out, scratchTransfer p i m = .ok out ∧
    ∀ t ∈ successors p i, ∃ m', inc t = some m' ∧ ScratchSubset m' out

/-- The forward pass computes a closed assignment. The induction is on the instructions still to
visit: a slot is final once the pass reaches it, since merges only go forward, and the
assignment found for the rest is completed with the slot of the current instruction. -/
theorem scratchPass_closed {n : Nat}
    (hsucc : ∀ {pc : Nat} {i}, is[pc]? = some i → ∀ t ∈ successors pc i, t < n) :
    ∀ {rest : List Instruction} {pc : Nat} {incoming : List (Option (BitVec 16))},
      is.drop pc = rest → incoming.length = n → scratchPass pc rest incoming = .ok () →
      ∃ inc : Nat → Option (BitVec 16),
        (rest ≠ [] → inc pc = incoming[pc]?.join) ∧
        (∀ p : Nat, pc ≤ p → Refines (inc p) (incoming[p]?.join)) ∧
        ∀ {p : Nat} {i m}, pc ≤ p → is[p]? = some i → inc p = some m → ClosedAt inc p i m := by
  intro rest
  induction rest with
  | nil =>
    intro pc incoming hdrop _ _
    refine ⟨fun p => incoming[p]?.join, fun h => absurd rfl h, fun p _ => .refl _, ?_⟩
    intro p i m hp hi
    have : is.length ≤ pc := by simpa using hdrop
    have hnone : is[p]? = none := by simp; omega
    rw [hnone] at hi
    cases hi
  | cons j rest ih =>
    intro pc incoming hdrop hlen h
    obtain ⟨hj, hdrop'⟩ := drop_eq_cons hdrop
    -- the assignment of the rest, with this instruction's slot put back in place
    have complete : ∀ {incoming' : List (Option (BitVec 16))}, incoming'.length = n →
        scratchPass (pc + 1) rest incoming' = .ok () →
        (∀ p : Nat, Refines (incoming'[p]?.join) (incoming[p]?.join)) →
        (∀ m, incoming[pc]?.join = some m → ClosedAt (fun t => incoming'[t]?.join) pc j m) →
        ∃ inc : Nat → Option (BitVec 16),
          (j :: rest ≠ [] → inc pc = incoming[pc]?.join) ∧
          (∀ p : Nat, pc ≤ p → Refines (inc p) (incoming[p]?.join)) ∧
          ∀ {p : Nat} {i m}, pc ≤ p → is[p]? = some i → inc p = some m → ClosedAt inc p i m := by
      intro incoming' hlen' hpass href hhere
      obtain ⟨inc, -, hinc, hstep⟩ := ih hdrop' hlen' hpass
      refine ⟨Function.update inc pc (incoming[pc]?.join), ?_, ?_, ?_⟩
      · intro _
        simp
      · intro p hp
        by_cases e : p = pc
        · subst e
          simpa using Refines.refl _
        · rw [Function.update_of_ne e]
          exact (hinc p (by omega)).trans (href p)
      · intro p i m hp hi hm
        by_cases e : p = pc
        · subst e
          obtain rfl : j = i := by rw [hj] at hi; exact Option.some.inj hi
          rw [Function.update_self] at hm
          obtain ⟨out, hout, hts⟩ := hhere m hm
          refine ⟨out, hout, fun t ht => ?_⟩
          obtain ⟨m₁, hm₁, hs₁⟩ := hts t ht
          have hlt := lt_of_mem_successors ht
          obtain ⟨m₂, hm₂, hs₂⟩ := hinc t hlt m₁ hm₁
          exact ⟨m₂, by rwa [Function.update_of_ne (by omega)], hs₂.trans hs₁⟩
        · rw [Function.update_of_ne e] at hm
          obtain ⟨out, hout, hts⟩ := hstep (by omega) hi hm
          refine ⟨out, hout, fun t ht => ?_⟩
          have hlt := lt_of_mem_successors ht
          rw [Function.update_of_ne (by omega)]
          exact hts t ht
    simp only [scratchPass] at h
    split at h
    · rename_i initialized hslot
      obtain ⟨out, hout, hpass⟩ := bind_eq_ok.mp h
      refine complete (by simpa using hlen) hpass
        (fun p => mergeSuccessors_refines _ _ _ p) fun m hm => ?_
      obtain rfl : initialized = m := by simpa [hslot] using hm
      refine ⟨out, hout, fun t ht => mergeSuccessors_target out ht ?_⟩
      rw [hlen]
      exact hsucc hj t ht
    · rename_i hslot
      refine complete hlen h (fun p => .refl _) fun m hm => ?_
      cases hs : incoming[pc]? with
      | none => simp [hs] at hm
      | some slot =>
        obtain rfl : slot = some m := by simpa [hs] using hm
        exact absurd hs (hslot m)

/-- Control stays inside: a jump by its check, a fall-through because the last instruction
returns. -/
theorem successors_lt_of
    (hjump : ∀ {pc : Nat} {i}, is[pc]? = some i →
      ∀ t ∈ jumpTargets pc i, t < is.length)
    (hlast : ∃ i, is.getLast? = some i ∧ isReturn i = true) (hi : is[pc]? = some i) :
    ∀ t ∈ successors pc i, t < is.length := by
  intro t ht
  obtain ⟨hpc, -⟩ := List.getElem?_eq_some_iff.mp hi
  have fall : isReturn i = false → pc + 1 < is.length := by
    intro hr
    by_contra hge
    obtain ⟨j, hj, hret⟩ := hlast
    rw [List.getLast?_eq_getElem?, show is.length - 1 = pc by omega, hi] at hj
    cases hj
    rw [hr] at hret
    cases hret
  unfold successors at ht
  rcases hop : i.op with _ | o
  · simp only [hop, List.mem_singleton] at ht
    exact ht ▸ fall (by simp [isReturn, hop])
  · cases o with
    | retK | retA => simp [hop] at ht
    | jmpJa | jmp => exact hjump hi t (by simpa [hop] using ht)
    | _ =>
      simp only [hop, List.mem_singleton] at ht
      exact ht ▸ fall (by simp [isReturn, hop])

/-- Well-formedness, with the scratch pass still to be run. -/
theorem Structured.wellFormed (h : Structured is) (hne : is ≠ [])
    (hpass : verifyScratchInitialization is = .ok ()) : WellFormed is where
  nonempty := hne
  statement := h.statement
  jump := h.jump
  last := h.last
  scratch := by
    obtain ⟨inc, hentry, -, hstep⟩ := scratchPass_closed (n := is.length)
      (fun hi => successors_lt_of h.jump h.last hi) List.drop_zero (by simp) hpass
    refine ⟨inc, ?_, fun hi hm => hstep (Nat.zero_le _) hi hm⟩
    have hpos := List.length_pos_iff.mpr hne
    rw [hentry hne]
    simp [hpos]

/-- The structural pass, instruction by instruction. -/
theorem verifyStructure_ok (h : verifyStructure is = .ok ()) : is ≠ [] ∧ Structured is := by
  unfold verifyStructure at h
  split at h
  · cases h
  rename_i hne
  split at h
  · cases h
  obtain ⟨⟨⟩, hcheck, hlast⟩ := bind_eq_ok.mp h
  split at hlast
  · refine ⟨by simpa using hne, not_lt.mp ‹_›, fun hi => ?_, fun hi => ?_, last_of_returns ‹_›⟩
    · simpa using (checkInstructions_ok hcheck hi).1
    · simpa using checkJump_ok (checkInstructions_ok hcheck hi).2
  · cases hlast

/-- **The verifier accepts only well-formed programs.** -/
theorem wellFormed_of_verify (h : verifyProgram is = .ok ()) : WellFormed is := by
  obtain ⟨⟨⟩, hs, hscratch⟩ := bind_eq_ok.mp h
  obtain ⟨hne, hs⟩ := verifyStructure_ok hs
  exact hs.wellFormed hne hscratch

theorem verify_ok {instructions : List Instruction} {program : Program}
    (h : Program.verify instructions = .ok program) :
    program.instructions = instructions ∧ WellFormed program.instructions := by
  refine ⟨?_, wellFormed_of_verify program.verified⟩
  unfold Program.verify at h
  split at h <;> cases h
  rfl

theorem verify_of {instructions : List Instruction} (h : verifyProgram instructions = .ok ()) :
    Program.verify instructions = .ok ⟨instructions, h⟩ := by
  unfold Program.verify
  split
  · rfl
  · next e he => rw [h] at he; cases he

theorem WellFormed.successors_lt (h : WellFormed is) (hi : is[pc]? = some i) :
    ∀ t ∈ successors pc i, t < is.length :=
  successors_lt_of h.jump h.last hi

/-! ### The interpreter on well-formed programs -/

/-- An iteration that goes on goes to a successor. -/
theorem evaluateInstruction_next {input : Input} {l l' : Locals}
    (h : evaluateInstruction input i l = .next l') : l'.pc ∈ successors l.pc i := by
  unfold evaluateInstruction at h
  rcases hop : i.op with _ | o
  · simp [hop] at h
  cases o with
  | jmpJa =>
    simp only [hop, Iteration.next.injEq] at h
    subst h
    simp [successors, jumpTargets, hop]
  | jmp op src =>
    simp only [hop, Iteration.next.injEq] at h
    subst h
    simp only [successors, jumpTargets, hop, List.mem_cons, List.not_mem_nil, or_false]
    rcases op.holds l.accumulator _ with _ | _ <;> simp
  | alu op src =>
    simp only [hop, evaluateAlu] at h
    cases op <;> cases src <;> simp only at h <;> (try split at h) <;> cases h <;>
      simp [successors, hop]
  | _ =>
    simp only [hop] at h
    repeat' split at h
    all_goals cases h
    all_goals simp [successors, hop]

/-- An instruction that passes its checks does not panic. -/
theorem evaluateInstruction_ne_panic {input : Input} {l : Locals}
    (h : checkStatement pc i = .ok ()) : evaluateInstruction input i l ≠ .panic := by
  intro hp
  unfold checkStatement at h
  unfold evaluateInstruction at hp
  rcases hop : i.op with _ | o
  · simp [hop] at h
  cases o with
  | alu op src =>
    simp only [hop, evaluateAlu] at hp h
    cases op <;> cases src <;> simp only at hp h <;> (try split at hp) <;> simp_all
  | _ =>
    simp only [hop] at hp h
    repeat' split at hp
    all_goals first | (cases hp; done) | (split at h <;> first | (cases h; done) | omega)

end KernelAx.Cbpf

import KernelAx.Cbpf.Safety

/-!
# Classic BPF — the scratch analysis is exact

`verifyScratchInitialization` is one forward pass over bit masks. What it is meant to decide is a
statement about paths: on every path from instruction 0, a load from a scratch word comes after a
store to it (`Initialized`). The two agree on every structurally valid program.
-/

namespace KernelAx.Cbpf

/-! ### Paths -/

/-- `LD_MEM` or `LDX_MEM` of a scratch word. -/
def Instruction.Loads (i : Instruction) (word : Nat) : Prop :=
  (i.op = some .ldMem ∨ i.op = some .ldxMem) ∧ i.k.toNat = word

/-- `ST` or `STX` to a scratch word. -/
def Instruction.Stores (i : Instruction) (word : Nat) : Prop :=
  (i.op = some .st ∨ i.op = some .stx) ∧ i.k.toNat = word

/-- A path of the control-flow graph from instruction 0, both edges of a conditional jump being
taken; `passed` are the instructions on it before the one at `pc`. -/
inductive Path (is : List Instruction) : List Instruction → Nat → Prop
  | entry : Path is [] 0
  | step {passed : List Instruction} {pc t : Nat} {i : Instruction} (walked : Path is passed pc)
      (fetched : is[pc]? = some i) (edge : t ∈ successors pc i) : Path is (passed ++ [i]) t

/-- On every path, each load from a scratch word is preceded by a store to it. -/
def Initialized (is : List Instruction) : Prop :=
  ∀ {passed : List Instruction} {pc : Nat} {i : Instruction} {word : Nat}, Path is passed pc →
    is[pc]? = some i → i.Loads word → ∃ j ∈ passed, j.Stores word

/-! ### One instruction -/

/-- The transfer function, in terms of loads and stores. -/
inductive Transfer (i : Instruction) (m : BitVec 16) : Except VerifyError (BitVec 16) → Prop
  | load {word : Nat} (loads : i.Loads word) (stored : m.getLsbD word = true) : Transfer i m (.ok m)
  | early {word : Nat} {e : VerifyError} (loads : i.Loads word) (missing : m.getLsbD word = false) :
      Transfer i m (.error e)
  | store {word : Nat} (stores : i.Stores word) : Transfer i m (.ok (m ||| 1#16 <<< word))
  | other (loads : ∀ word, ¬ i.Loads word) (stores : ∀ word, ¬ i.Stores word) : Transfer i m (.ok m)

variable {m out : BitVec 16} {k : Nat} {i : Instruction} {is : List Instruction} {l l' : Locals}

theorem getLsbD_of_and_bit_eq_zero (hk : k < 16) (h : m &&& (1#16 <<< k) = 0) :
    m.getLsbD k = false := by
  have hbit := congrArg (fun w : BitVec 16 => w.getLsbD k) h
  simpa [BitVec.getLsbD_and, getLsbD_bit, hk] using hbit

theorem transfer_of_check {pc : Nat} (hi : checkStatement pc i = .ok ()) (m : BitVec 16) :
    Transfer i m (scratchTransfer pc i m) := by
  have hword : i.scratchIndex = some i.k.toNat → i.k.toNat < 16 :=
    fun h => checkStatement_scratch hi _ h
  unfold scratchTransfer
  rcases hop : i.op with _ | o
  · exact .other (by simp [Instruction.Loads, hop]) (by simp [Instruction.Stores, hop])
  cases o with
  | ldMem | ldxMem =>
    have hloads : i.Loads i.k.toNat := by simp [Instruction.Loads, hop]
    dsimp only
    split_ifs with hbit
    · refine .early hloads (getLsbD_of_and_bit_eq_zero (hword ?_) hbit)
      simp [Instruction.scratchIndex, hop]
    · exact .load hloads (getLsbD_of_and_bit_ne_zero hbit)
  | st | stx => exact .store (by simp [Instruction.Stores, hop])
  | _ => exact .other (by simp [Instruction.Loads, hop]) (by simp [Instruction.Stores, hop])

theorem getLsbD_store (m : BitVec 16) (word k : Nat) :
    (m ||| 1#16 <<< word).getLsbD k = (m.getLsbD k || (decide (k = word) && decide (k < 16))) := by
  rw [BitVec.getLsbD_or, getLsbD_bit]

theorem Instruction.not_loads_and_stores {word word' : Nat} (hl : i.Loads word)
    (hs : i.Stores word') : False := by
  obtain ⟨hl | hl, -⟩ := hl <;> obtain ⟨hs | hs, -⟩ := hs <;> simp [hl] at hs

/-- After an instruction a word is in the set iff it was, or the instruction stores it. -/
theorem Transfer.mem_iff (h : Transfer i m (.ok out)) (hk : k < 16) :
    out.getLsbD k = true ↔ m.getLsbD k = true ∨ i.Stores k := by
  cases h with
  | load loads stored =>
    exact ⟨.inl, fun h => h.resolve_right fun hs => Instruction.not_loads_and_stores loads hs⟩
  | store stores =>
    rw [getLsbD_store]
    simp only [hk, decide_true, Bool.and_true, Bool.or_eq_true, decide_eq_true_eq]
    refine or_congr_right ⟨?_, ?_⟩
    · rintro rfl
      exact stores
    · intro hs
      exact hs.2.symm.trans stores.2
  | other loads stores => exact ⟨.inl, fun h => h.resolve_right (stores k)⟩

/-! ### What is accepted is initialized -/

theorem getLsbD_lt (h : m.getLsbD k = true) : k < 16 := by
  by_contra hk
  rw [BitVec.getLsbD_of_ge m k (by omega)] at h
  cases h

/-- A word of the set at `pc` has been stored on every path to `pc`. -/
theorem ScratchClosed.stored {inc : Nat → Option (BitVec 16)} (h : ScratchClosed is inc)
    (hstatement : ∀ {pc : Nat} {i}, is[pc]? = some i → checkStatement pc i = .ok ())
    {passed : List Instruction} {pc : Nat} (hpath : Path is passed pc) :
    ∃ m, inc pc = some m ∧ ∀ k, m.getLsbD k = true → ∃ j ∈ passed, j.Stores k := by
  induction hpath with
  | entry => exact ⟨0, h.entry, fun k hk => by simp at hk⟩
  | @step passed pc t i walked fetched edge ih =>
    obtain ⟨m, hm, hstored⟩ := ih
    obtain ⟨out, hout, hnext⟩ := h.step fetched hm
    obtain ⟨m', hm', hsub⟩ := hnext t edge
    refine ⟨m', hm', fun k hk => ?_⟩
    have htransfer := transfer_of_check (hstatement fetched) m
    rw [hout] at htransfer
    rcases (htransfer.mem_iff (getLsbD_lt hk)).mp (hsub k hk) with hk' | hs
    · obtain ⟨j, hj, hs⟩ := hstored k hk'
      exact ⟨j, List.mem_append_left _ hj, hs⟩
    · exact ⟨i, by simp, hs⟩

theorem WellFormed.initialized (h : WellFormed is) : Initialized is := by
  intro passed pc i word hpath hi hload
  obtain ⟨inc, hclosed⟩ := h.scratch
  obtain ⟨m, hm, hstored⟩ := hclosed.stored h.statement hpath
  obtain ⟨out, hout, -⟩ := hclosed.step hi hm
  have htransfer := transfer_of_check (h.statement hi) m
  rw [hout] at htransfer
  cases htransfer with
  | load loads stored =>
    obtain rfl : _ = word := loads.2.symm.trans hload.2
    exact hstored _ stored
  | store stores => exact absurd stores fun hs => Instruction.not_loads_and_stores hload hs
  | other loads stores => exact absurd hload (loads word)

/-! ### What is initialized is accepted -/

/-- Each word missing from a slot is missed by some path to it. -/
def Justified (is : List Instruction) (p : Nat) (slot : Option (BitVec 16)) : Prop :=
  ∀ m, slot = some m → ∀ k, k < 16 → m.getLsbD k = false →
    ∃ passed, Path is passed p ∧ ∀ j ∈ passed, ¬ j.Stores k

theorem justified_merge {p : Nat} {slot : Option (BitVec 16)} (hslot : Justified is p slot)
    (hout : Justified is p (some out)) : Justified is p (mergeInitialized slot out) := by
  rintro m ⟨⟩ k hk hmissing
  cases slot with
  | none => exact hout out rfl k hk hmissing
  | some existing =>
    rw [BitVec.getLsbD_and, Bool.and_eq_false_iff] at hmissing
    rcases hmissing with hm | hm
    · exact hslot existing rfl k hk hm
    · exact hout out rfl k hk hm

theorem justified_mergeSuccessors {targets : List Nat}
    (hout : ∀ t ∈ targets, Justified is t (some out)) {incoming : List (Option (BitVec 16))}
    (h : ∀ p, Justified is p incoming[p]?.join) (p : Nat) :
    Justified is p (mergeSuccessors out targets incoming)[p]?.join := by
  induction targets generalizing incoming with
  | nil => exact h p
  | cons t ts ih =>
    refine ih (fun u hu => hout u (List.mem_cons_of_mem _ hu)) fun q => ?_
    have hq := h q
    rw [List.getElem?_modify]
    cases hslot : incoming[q]? with
    | none => simp [Justified]
    | some slot =>
      rw [hslot] at hq
      by_cases e : t = q
      · subst e
        simpa using justified_merge hq (hout t List.mem_cons_self)
      · simpa [e] using hq

section

variable (hstatement : ∀ {pc : Nat} {i}, is[pc]? = some i → checkStatement pc i = .ok ())
include hstatement

/-- The pass fails only at a load that some path reaches without a store. The induction is on the
instructions still to visit; every slot stays justified. -/
theorem scratchPass_ok (hinit : Initialized is) :
    ∀ {rest : List Instruction} {pc : Nat} {incoming : List (Option (BitVec 16))},
      is.drop pc = rest → (∀ p, Justified is p incoming[p]?.join) →
      scratchPass pc rest incoming = .ok () := by
  intro rest
  induction rest with
  | nil => intro pc incoming _ _; rfl
  | cons i rest ih =>
    intro pc incoming hdrop hjust
    obtain ⟨hi, hdrop'⟩ := drop_eq_cons hdrop
    rw [scratchPass]
    split
    · rename_i m hslot
      have hm : Justified is pc (some m) := by simpa [hslot] using hjust pc
      have htransfer := transfer_of_check (hstatement hi) m
      cases hout : scratchTransfer pc i m with
      | error e =>
        rw [hout] at htransfer
        cases htransfer with
        | @early word _ loads missing =>
          have hword : word < 16 := by
            rw [← loads.2]
            refine checkStatement_scratch (hstatement hi) _ ?_
            rcases loads.1 with hop | hop <;> simp [Instruction.scratchIndex, hop]
          obtain ⟨passed, hpath, hnone⟩ := hm m rfl word hword missing
          obtain ⟨j, hj, hs⟩ := hinit hpath hi loads
          exact absurd hs (hnone j hj)
      | ok out =>
        rw [hout] at htransfer
        refine ih hdrop' (justified_mergeSuccessors (fun t ht => ?_) hjust)
        -- the path that misses the word goes on along the edge
        rintro _ ⟨⟩ k hk hmissing
        have hboth := (not_congr (htransfer.mem_iff hk)).mp (by simp [hmissing])
        rw [not_or, Bool.not_eq_true] at hboth
        obtain ⟨passed, hpath, hnone⟩ := hm m rfl k hk hboth.1
        refine ⟨passed ++ [i], hpath.step hi ht, fun j hj => ?_⟩
        rcases List.mem_append.mp hj with hj | hj
        · exact hnone j hj
        · rw [List.mem_singleton.mp hj]
          exact hboth.2
    · exact ih hdrop' hjust

theorem verifyScratchInitialization_of_initialized (hinit : Initialized is) :
    verifyScratchInitialization is = .ok () := by
  refine scratchPass_ok hstatement hinit List.drop_zero fun p => ?_
  intro m hm k _ _
  cases p with
  | zero => exact ⟨[], .entry, by simp⟩
  | succ p =>
    rw [List.getElem?_set_ne (by omega), List.getElem?_replicate] at hm
    split_ifs at hm <;> simp at hm

end

/-! ### The interpreter does not see the other words -/

/-- Locals that differ at most in scratch words outside `m`. -/
structure Locals.Agree (m : BitVec 16) (l l' : Locals) : Prop where
  accumulator : l.accumulator = l'.accumulator
  index : l.index = l'.index
  pc : l.pc = l'.pc
  scratch : ∀ k, m.getLsbD k = true → l.scratch k = l'.scratch k

theorem Locals.Agree.mono {m' : BitVec 16} (h : l.Agree m l') (hsub : ScratchSubset m' m) :
    l.Agree m' l' := { h with
  scratch := fun k hk => h.scratch k (hsub k hk) }

/-- Two iterations that end alike, or go on with locals that agree on `m`. -/
inductive Iteration.Agree (m : BitVec 16) : Iteration → Iteration → Prop
  | next {l l' : Locals} (agree : l.Agree m l') : Agree m (.next l) (.next l')
  | return (value : BitVec 32) : Agree m (.return value) (.return value)
  | panic : Agree m .panic .panic

theorem evaluateAlu_agree (h : l.Agree m l') (op : AluOp) (src : Source) (i : Instruction) :
    (evaluateAlu op src i l).Agree m (evaluateAlu op src i l') := by
  obtain ⟨a, x, s, pc⟩ := l
  obtain ⟨a', x', s', pc'⟩ := l'
  obtain ⟨ha, hx, hpc, hs⟩ := h
  dsimp only at ha hx hpc hs
  subst ha hx hpc
  unfold evaluateAlu
  cases op <;> cases src <;> dsimp only <;> (try split_ifs) <;>
    first | exact .panic | exact .return _ | exact .next ⟨rfl, rfl, rfl, hs⟩

/-- An instruction that passes the transfer takes locals that agree before it to locals that agree
after it. -/
theorem evaluateInstruction_agree (input : Input) (htransfer : Transfer i m (.ok out))
    (h : l.Agree m l') :
    (evaluateInstruction input i l).Agree out (evaluateInstruction input i l') := by
  -- words kept by the instruction stay equal
  have hkeep : (∀ word, ¬ i.Stores word) → ScratchSubset out m := fun hs k hk =>
    ((htransfer.mem_iff (getLsbD_lt hk)).mp hk).resolve_right (hs k)
  obtain ⟨a, x, s, pc⟩ := l
  obtain ⟨a', x', s', pc'⟩ := l'
  obtain ⟨ha, hx, hpc, hs⟩ := h
  dsimp only at ha hx hpc hs
  subst ha hx hpc
  have hstore : (∃ word, i.Stores word) → ∀ v : BitVec 32, ∀ k, out.getLsbD k = true →
      Function.update s i.k.toNat v k = Function.update s' i.k.toNat v k := by
    rintro ⟨word, hword⟩ v k hk
    by_cases e : k = i.k.toNat
    · rw [e, Function.update_self, Function.update_self]
    · rw [Function.update_of_ne e, Function.update_of_ne e]
      refine hs k (((htransfer.mem_iff (getLsbD_lt hk)).mp hk).resolve_right fun hst => ?_)
      exact e hst.2.symm
  have hsame : (∀ word, ¬ i.Stores word) → ∀ k, out.getLsbD k = true → s k = s' k :=
    fun hno k hk => hs k (hkeep hno k hk)
  unfold evaluateInstruction
  rcases hop : i.op with _ | o
  · exact .panic
  cases o with
  | st | stx =>
    have hst : ∃ word, i.Stores word := ⟨i.k.toNat, by simp [Instruction.Stores, hop]⟩
    dsimp only
    split_ifs
    · exact .next ⟨rfl, rfl, rfl, hstore hst _⟩
    · exact .panic
  | ldMem | ldxMem =>
    have hno : ∀ word, ¬ i.Stores word := by simp [Instruction.Stores, hop]
    have hword : s i.k.toNat = s' i.k.toNat := by
      have hloads : i.Loads i.k.toNat := by simp [Instruction.Loads, hop]
      cases htransfer with
      | load loads stored => exact hs _ (by rwa [← loads.2] at stored)
      | store stores => exact absurd stores (hno _)
      | other loads => exact absurd hloads (loads _)
    dsimp only
    rw [hword]
    split_ifs
    · exact .next ⟨rfl, rfl, rfl, hsame hno⟩
    · exact .panic
  | alu op src =>
    have hno : ∀ word, ¬ i.Stores word := by simp [Instruction.Stores, hop]
    have hagree : Locals.Agree out ⟨a, x, s, pc⟩ ⟨a, x, s', pc⟩ := ⟨rfl, rfl, rfl, hsame hno⟩
    exact evaluateAlu_agree hagree op src i
  | _ =>
    have hno : ∀ word, ¬ i.Stores word := by simp [Instruction.Stores, hop]
    dsimp only
    repeat' split
    all_goals first | exact .return _ | exact .next ⟨rfl, rfl, rfl, hsame hno⟩

theorem evaluateLoop_agree {inc : Nat → Option (BitVec 16)} (hclosed : ScratchClosed is inc)
    (hstatement : ∀ {pc : Nat} {i}, is[pc]? = some i → checkStatement pc i = .ok ())
    (input : Input) (fuel : Nat) :
    ∀ (steps : Nat) {m : BitVec 16} {l l' : Locals}, inc l.pc = some m → l.Agree m l' →
      evaluateLoop is input fuel steps l = evaluateLoop is input fuel steps l' := by
  induction fuel with
  | zero => intros; rfl
  | succ fuel ih =>
    intro steps m l l' hm hagree
    rw [evaluateLoop, evaluateLoop, ← hagree.pc]
    cases hi : is[l.pc]? with
    | none => rfl
    | some i =>
      obtain ⟨out, hout, hnext⟩ := hclosed.step hi hm
      have htransfer := transfer_of_check (hstatement hi) m
      rw [hout] at htransfer
      have hiter := evaluateInstruction_agree input htransfer hagree
      have hedge : ∀ l₁, evaluateInstruction input i l = .next l₁ →
          l₁.pc ∈ successors l.pc i := fun _ => evaluateInstruction_next
      dsimp only
      generalize evaluateInstruction input i l = iteration at hiter hedge ⊢
      generalize evaluateInstruction input i l' = iteration' at hiter ⊢
      cases hiter with
      | next agree =>
        obtain ⟨m', hm', hsub⟩ := hnext _ (hedge _ rfl)
        exact ih (steps + 1) hm' (agree.mono hsub)
      | «return» value | panic => rfl

/-- The interpreter started with other contents of the scratch memory. -/
def evaluateWith (scratch : Nat → BitVec 32) (instructions : List Instruction) (input : Input) :
    Option (BitVec 32) :=
  (evaluateLoop instructions input instructions.length 0 { Locals.init with scratch }).map Prod.fst

theorem WellFormed.evaluateWith_eq (h : WellFormed is) (scratch : Nat → BitVec 32) (input : Input) :
    evaluateWith scratch is input = evaluate is input := by
  obtain ⟨inc, hclosed⟩ := h.scratch
  have hagree : Locals.Agree 0 { Locals.init with scratch } .init :=
    ⟨rfl, rfl, rfl, fun k hk => by simp at hk⟩
  rw [evaluateWith, evaluate, evaluateCounted,
    evaluateLoop_agree hclosed h.statement input _ 0 hclosed.entry hagree]

/-- **The scratch analysis is exact**: it accepts a structurally valid program exactly when every
path stores a scratch word before loading it, and the value of an accepted program does not depend
on what the scratch memory held. -/
theorem verifyScratchInitialization_iff {is : List Instruction}
    (hstructure : verifyStructure is = .ok ()) :
    (verifyScratchInitialization is = .ok () ↔ Initialized is) ∧
    (verifyScratchInitialization is = .ok () → ∀ (scratch : Nat → BitVec 32) (input : Input),
      evaluateWith scratch is input = evaluate is input) := by
  obtain ⟨hne, hs⟩ := verifyStructure_ok hstructure
  have hwell := hs.wellFormed hne
  refine ⟨⟨fun h => (hwell h).initialized, fun h => ?_⟩, fun h scratch input => ?_⟩
  · exact verifyScratchInitialization_of_initialized hs.statement h
  · exact (hwell h).evaluateWith_eq scratch input

/-- A store on both arms of a jump and a load behind the join, then the same program with one of the
stores left out. -/
theorem verifyScratchInitialization_iff_join :
    let stored : List Instruction := [.statement .ldImm 7, ⟨0x15, 2, 0, 1⟩, .statement .st 3,
      ⟨0x05, 0, 0, 1⟩, .statement .st 3, .statement .ldMem 3, .statement .retA 0]
    let early : List Instruction := [.statement .ldImm 7, ⟨0x15, 2, 0, 1⟩, .statement .st 3,
      ⟨0x05, 0, 0, 1⟩, .statement .st 4, .statement .ldMem 3, .statement .retA 0]
    (verifyStructure stored = .ok () ∧ Initialized stored ∧
      ∀ scratch, evaluateWith scratch stored (bytesInput []) = some 7) ∧
    verifyStructure early = .ok () ∧ ¬ Initialized early := by
  intro stored early
  have hstored : verifyStructure stored = .ok () := by decide
  have hearly : verifyStructure early = .ok () := by decide
  have haccepted : verifyScratchInitialization stored = .ok () := by decide
  have hrefused : verifyScratchInitialization early ≠ .ok () := by decide
  refine ⟨⟨hstored, (verifyScratchInitialization_iff hstored).1.mp haccepted, fun scratch => ?_⟩,
    hearly, fun h => hrefused ((verifyScratchInitialization_iff hearly).1.mpr h)⟩
  exact ((verifyScratchInitialization_iff hstored).2 haccepted scratch _).trans rfl

end KernelAx.Cbpf

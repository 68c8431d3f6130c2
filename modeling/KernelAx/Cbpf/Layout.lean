import KernelAx.Cbpf.Validate

/-!
# Classic BPF — the layout of a native image

What native bytes have to look like to implement a source program, whoever produced them. A
`Block` is a list of expectations met by consecutive operations with resolved branch targets; a
`Layout` is a prologue, one block per source instruction, the failure block and the epilogue.
Both are over a relation `D p o q`, "the operation at `p` is `o` and ends at `q`", so that one
notion serves the validator's decoder and the machine's.
-/

namespace KernelAx.Cbpf

open NativeOp

open X86 (Byte)

/-! ### Blocks -/

/-- The expectations `es` are met from `p` on, up to `r`; branches go where `res` says. -/
inductive Block (D : Nat → NativeOp → Nat → Prop) (res : Target → Option Nat) :
    List Expectation → Nat → Nat → Prop where
  | nil (p : Nat) : Block D res [] p p
  | op {o es p q r} (h : D p o q)
      (t : Block D res es q r) : Block D res (.op o :: es) p r
  | jcc {c target dest es p q r} (h : D p (.conditionalJump c dest) q)
      (hto : res target = some dest)
      (t : Block D res es q r) : Block D res (.jcc c target :: es) p r
  | jump {target dest es p q r} (h : D p (.jump dest) q) (hto : res target = some dest)
      (t : Block D res es q r) : Block D res (.jump target :: es) p r

section Block

variable {D D' : Nat → NativeOp → Nat → Prop} {res : Target → Option Nat}
  {es es' : List Expectation} {p q r : Nat}

theorem Block.of_nil (h : Block D res [] p r) : p = r := by
  cases h
  rfl

theorem Block.of_op {o : NativeOp} (h : Block D res (.op o :: es) p r) :
    ∃ q, D p o q ∧ Block D res es q r := by
  cases h with
  | op h t => exact ⟨_, h, t⟩

theorem Block.of_jcc {c : Condition} {target : Target} {dest : Nat}
    (h : Block D res (.jcc c target :: es) p r) (hdest : res target = some dest) :
    ∃ q, D p (.conditionalJump c dest) q ∧ Block D res es q r := by
  cases h with
  | jcc h hto t =>
    rw [hdest] at hto
    cases hto
    exact ⟨_, h, t⟩

theorem Block.of_jump {target : Target} {dest : Nat} (h : Block D res (.jump target :: es) p r)
    (hdest : res target = some dest) : ∃ q, D p (.jump dest) q ∧ Block D res es q r := by
  cases h with
  | jump h hto t =>
    rw [hdest] at hto
    cases hto
    exact ⟨_, h, t⟩

theorem Block.split (h : Block D res (es ++ es') p r) :
    ∃ q, Block D res es p q ∧ Block D res es' q r := by
  induction es generalizing p with
  | nil => exact ⟨p, .nil p, h⟩
  | cons e es ih =>
    cases h with
    | op h t =>
      obtain ⟨q, h₁, h₂⟩ := ih t
      exact ⟨q, .op h h₁, h₂⟩
    | jcc h hto t =>
      obtain ⟨q, h₁, h₂⟩ := ih t
      exact ⟨q, .jcc h hto h₁, h₂⟩
    | jump h hto t =>
      obtain ⟨q, h₁, h₂⟩ := ih t
      exact ⟨q, .jump h hto h₁, h₂⟩

/-- A property of single operations that the expectations of a list may have. -/
@[simp] def Expectation.Meets (P : NativeOp → Prop) : Expectation → Prop
  | .op o => P o
  | .jcc c _ => ∀ dest, P (.conditionalJump c dest)
  | .jump _ => ∀ dest, P (.jump dest)

theorem Block.imp {P : NativeOp → Prop} (hes : ∀ e ∈ es, e.Meets P)
    (hD : ∀ p o q, P o → D p o q → D' p o q) (h : Block D res es p r) : Block D' res es p r := by
  induction h with
  | nil p => exact .nil p
  | op h _ ih =>
    have he := hes _ (List.mem_cons_self ..)
    exact .op (hD _ _ _ he h) (ih fun e he => hes e (List.mem_cons_of_mem _ he))
  | jcc h hto _ ih =>
    have he := hes _ (List.mem_cons_self ..)
    exact .jcc (hD _ _ _ (he _) h) hto (ih fun e he => hes e (List.mem_cons_of_mem _ he))
  | jump h hto _ ih =>
    have he := hes _ (List.mem_cons_self ..)
    exact .jump (hD _ _ _ (he _) h) hto (ih fun e he => hes e (List.mem_cons_of_mem _ he))

end Block

/-- The offset of source instruction `pc`; behind the last one comes the failure block. -/
def nativeOffset (offsets : List Nat) (failure pc : Nat) : Nat := offsets.getD pc failure

/-- A native image of `source`: every part is in place, one behind the other. -/
structure Layout (D : Nat → NativeOp → Nat → Prop) (source : List Instruction)
    (profile : InputProfile) (offsets : List Nat) (failure epilogue stop : Nat) : Prop where
  length : offsets.length = source.length
  prologue : Block D (Target.offset offsets failure epilogue) (validatePrologue profile) 0
    (nativeOffset offsets failure 0)
  body : ∀ {pc : Nat} {i : Instruction}, source[pc]? = some i → ∃ position es,
    validateSourceInstruction pc i profile position = .ok es ∧
    Block D (Target.offset offsets failure epilogue) es (nativeOffset offsets failure pc)
      (nativeOffset offsets failure (pc + 1))
  failureBlock : Block D (Target.offset offsets failure epilogue) validateFailure failure epilogue
  epilogueBlock : Block D (Target.offset offsets failure epilogue) validateEpilogue epilogue stop

/-! ### The validator's linear sweep -/

/-- The offsets the validator's decoder reads an operation from, starting at `p`. -/
inductive Sweep (bytes : List Byte) : Nat → Nat → Prop where
  | here (p : Nat) : Sweep bytes p p
  | next {p q x : Nat} {o : NativeOp} (h : decodeOperation p (bytes.drop p) = some (o, q))
      (t : Sweep bytes q x) : Sweep bytes p x

variable {bytes : List Byte} {es : List Expectation}

theorem Sweep.trans {p q x : Nat} (h : Sweep bytes p q) (h' : Sweep bytes q x) :
    Sweep bytes p x := by
  induction h with
  | here => exact h'
  | next hd _ ih => exact .next hd (ih h')

/-- The sweep stays within offsets that are closed under the decoder. -/
theorem Sweep.mem_of_closed {offsets : List Nat} {p x : Nat}
    (closed : ∀ p ∈ offsets, ∀ r ∈ decodeOperation p (bytes.drop p), r.2 ∈ offsets)
    (hp : p ∈ offsets) (h : Sweep bytes p x) : x ∈ offsets := by
  induction h with
  | here => exact hp
  | next hd _ ih => exact ih (closed _ hp _ hd)

/-- The validator's decoder reads `o` at `p`, on its way through the bytes. -/
def Reads (bytes : List Byte) (p : Nat) (o : NativeOp) (q : Nat) : Prop :=
  Sweep bytes 0 p ∧ decodeOperation p (bytes.drop p) = some (o, q)

theorem Reads.next {bytes : List Byte} {p q : Nat} {o : NativeOp} (h : Reads bytes p o q) :
    Sweep bytes 0 q :=
  h.1.trans (.next h.2 (.here q))

section Checker

variable {bytes : List Byte} {pc site : Nat} {res : Target → Option Nat}

variable {c c' : Checker}

theorem Checker.expect_targets {e : Expectation} (h : c.expect bytes pc site e = .ok c') :
    c.targets ⊆ c'.targets := by
  unfold Checker.expect at h
  split at h
  · cases h
  · split at h
    · split at h <;> cases h
      exact List.Subset.refl _
    · split at h <;> cases h
      exact List.subset_append_left _ _
    · cases h
      exact List.subset_append_left _ _
    · cases h

theorem Checker.expectAll_targets {es : List Expectation}
    (h : c.expectAll bytes pc site es = .ok c') : c.targets ⊆ c'.targets := by
  induction es generalizing c with
  | nil =>
    cases h
    exact List.Subset.refl _
  | cons e es ih =>
    obtain ⟨c₁, h₁, h₂⟩ := bind_eq_ok.mp h
    exact List.Subset.trans (expect_targets h₁) (ih h₂)

/-- Expectations the checker goes through form a block, once the targets it recorded are known to
be right. -/
theorem Checker.expectAll_block {es : List Expectation}
    (h : c.expectAll bytes pc site es = .ok c') (hsweep : Sweep bytes 0 c.position)
    (hres : ∀ t ∈ c'.targets, res t.expected = some t.actual) :
    Block (Reads bytes) res es c.position c'.position ∧ Sweep bytes 0 c'.position := by
  induction es generalizing c with
  | nil =>
    cases h
    exact ⟨.nil _, hsweep⟩
  | cons e es ih =>
    obtain ⟨c₁, h₁, h₂⟩ := bind_eq_ok.mp h
    have hsub := expectAll_targets h₂
    unfold Checker.expect at h₁
    split at h₁
    · cases h₁
    · rename_i operation next hdecode
      have hreads : Reads bytes c.position operation next := ⟨hsweep, hdecode⟩
      split at h₁
      · rename_i o
        split at h₁ <;> cases h₁
        rename_i heq
        subst heq
        obtain ⟨hb, hs⟩ := ih h₂ hreads.next
        exact ⟨.op hreads hb, hs⟩
      · rename_i expected actual target
        split at h₁ <;> cases h₁
        rename_i heq
        subst heq
        obtain ⟨hb, hs⟩ := ih h₂ hreads.next
        exact ⟨.jcc hreads (hres ⟨site, target, expected⟩ (hsub (by simp))) hb, hs⟩
      · rename_i expected target
        cases h₁
        obtain ⟨hb, hs⟩ := ih h₂ hreads.next
        exact ⟨.jump hreads (hres ⟨site, target, expected⟩ (hsub (by simp))) hb, hs⟩
      · cases h₁

theorem validateSource_targets {profile : InputProfile} {rest : List Instruction}
    {offsets offsets' : List Nat}
    (h : validateSource bytes profile pc rest offsets c = .ok (offsets', c')) :
    c.targets ⊆ c'.targets := by
  induction rest generalizing pc offsets c with
  | nil =>
    cases h
    exact List.Subset.refl _
  | cons i rest ih =>
    obtain ⟨es, -, h⟩ := bind_eq_ok.mp h
    obtain ⟨c₁, h₁, h₂⟩ := bind_eq_ok.mp h
    exact List.Subset.trans (Checker.expectAll_targets h₁) (ih h₂)

/-- The loop over the source: one block per instruction, one behind the other. -/
theorem validateSource_blocks {profile : InputProfile} {rest : List Instruction}
    {offsets offsets' : List Nat}
    (h : validateSource bytes profile pc rest offsets c = .ok (offsets', c'))
    (hsweep : Sweep bytes 0 c.position) (hres : ∀ t ∈ c'.targets, res t.expected = some t.actual) :
    ∃ new, offsets' = offsets ++ new ∧ new.length = rest.length ∧
      nativeOffset new c'.position 0 = c.position ∧ Sweep bytes 0 c'.position ∧
      ∀ {j : Nat} {i : Instruction}, rest[j]? = some i → ∃ position es,
        validateSourceInstruction (pc + j) i profile position = .ok es ∧
        Block (Reads bytes) res es (nativeOffset new c'.position j)
          (nativeOffset new c'.position (j + 1)) := by
  induction rest generalizing pc offsets c with
  | nil =>
    cases h
    exact ⟨[], by simp, rfl, rfl, hsweep, fun hj => by simp at hj⟩
  | cons i rest ih =>
    obtain ⟨es, hes, h⟩ := bind_eq_ok.mp h
    obtain ⟨c₁, h₁, h₂⟩ := bind_eq_ok.mp h
    obtain ⟨hblock, hsweep₁⟩ := Checker.expectAll_block h₁ hsweep
      fun t ht => hres t (validateSource_targets h₂ ht)
    obtain ⟨new, rfl, hlen, hstart, hsweep', hblocks⟩ := ih h₂ hsweep₁
    refine ⟨c.position :: new, by simp, by simp [hlen], rfl, hsweep', ?_⟩
    intro j i' hi'
    cases j with
    | zero =>
      obtain rfl : i = i' := by simpa using hi'
      refine ⟨_, es, hes, ?_⟩
      rw [show nativeOffset (c.position :: new) c'.position (0 + 1) = c₁.position from hstart]
      exact hblock
    | succ j =>
      obtain ⟨position, es', hes', hb⟩ := hblocks (by simpa using hi')
      refine ⟨position, es', ?_, hb⟩
      rwa [show pc + (j + 1) = pc + 1 + j by omega]

end Checker

theorem validateTargets_ok {offsets : List Nat} {failure epilogue : Nat} {ts : List TargetCheck}
    (h : validateTargets offsets failure epilogue ts = .ok ()) :
    ∀ t ∈ ts, t.expected.offset offsets failure epilogue = some t.actual := by
  induction ts with
  | nil => intro t ht; cases ht
  | cons t ts ih =>
    unfold validateTargets at h
    split at h
    · rename_i heq
      intro u hu
      rcases List.mem_cons.mp hu with rfl | hu
      · exact heq
      · exact ih h u hu
    · cases h

/-- **Bytes the validator accepts have a layout**, as its own decoder reads them. -/
theorem layout_of_validate {source : List Instruction} {profile : InputProfile}
    {offsets : List Nat} (h : validateTranslationLayout bytes source profile = .ok offsets) :
    validateSourceContract source profile = .ok () ∧
    ∃ failure epilogue,
      Layout (Reads bytes) source profile offsets failure epilogue bytes.length := by
  unfold validateTranslationLayout at h
  split at h
  · cases h
  obtain ⟨⟨⟩, hcontract, h⟩ := bind_eq_ok.mp h
  obtain ⟨c₁, hpro, h⟩ := bind_eq_ok.mp h
  obtain ⟨⟨offsets', c₂⟩, hsrc, h⟩ := bind_eq_ok.mp h
  obtain ⟨c₃, hfail, h⟩ := bind_eq_ok.mp h
  obtain ⟨c₄, hepi, h⟩ := bind_eq_ok.mp h
  split at h
  · cases h
  rename_i hstop
  obtain ⟨⟨⟩, htargets, h⟩ := bind_eq_ok.mp h
  cases h
  -- every recorded target is among those compared at the end
  have hres₄ := validateTargets_ok htargets
  have hres₃ := fun t ht => hres₄ t (Checker.expectAll_targets hepi ht)
  have hres₂ := fun t ht => hres₃ t (Checker.expectAll_targets hfail ht)
  have hres₁ := fun t ht => hres₂ t (validateSource_targets hsrc ht)
  obtain ⟨bpro, s₁⟩ := Checker.expectAll_block hpro (.here 0) hres₁
  obtain ⟨new, hnew, hlen, hstart, s₂, hbody⟩ := validateSource_blocks hsrc s₁ hres₂
  obtain ⟨bfail, s₃⟩ := Checker.expectAll_block hfail s₂ hres₃
  obtain ⟨bepi, -⟩ := Checker.expectAll_block hepi s₃ hres₄
  simp only [List.nil_append] at hnew
  subst hnew
  refine ⟨hcontract, c₂.position, c₃.position, hlen, ?_, ?_, bfail, ?_⟩
  · rw [hstart]
    exact bpro
  · intro pc i hi
    simpa using hbody hi
  · rw [← not_ne_iff.mp hstop]
    exact bepi

/-! ### Every layout is accepted -/

section Complete

variable {c : Checker} {res : Target → Option Nat} {p r : Nat} {source rest : List Instruction}
  {profile : InputProfile} {offsets : List Nat} {failure epilogue : Nat}

/-- The targets recorded so far are right. -/
def Checker.Right (res : Target → Option Nat) (c : Checker) : Prop :=
  ∀ t ∈ c.targets, res t.expected = some t.actual

theorem Checker.Right.record {t : TargetCheck} (h : c.Right res)
    (ht : res t.expected = some t.actual) (next : Nat) :
    (Checker.mk next (c.targets ++ [t])).Right res := by
  intro u hu
  rcases List.mem_append.mp hu with hu | hu
  · exact h u hu
  · rw [List.mem_singleton.mp hu]
    exact ht

theorem Checker.expectAll_of_block (pc site : Nat) (h : Block (Reads bytes) res es p r)
    (hp : c.position = p) (hres : c.Right res) :
    ∃ c', c.expectAll bytes pc site es = .ok c' ∧ c'.position = r ∧ c'.Right res := by
  induction h generalizing c with
  | nil => exact ⟨c, rfl, hp, hres⟩
  | @op o es p q r hread _ ih =>
    subst hp
    obtain ⟨c', hc', hend⟩ := @ih { c with position := q } rfl hres
    exact ⟨c', bind_eq_ok.mpr ⟨_, by simp [Checker.expect, hread.2], hc'⟩, hend⟩
  | @jcc _ _ _ _ _ q _ hread hto _ ih | @jump _ _ _ _ q _ hread hto _ ih =>
    subst hp
    obtain ⟨c', hc', hend⟩ := ih rfl (hres.record (t := ⟨site, _, _⟩) hto q)
    exact ⟨c', bind_eq_ok.mpr ⟨_, by simp [Checker.expect, hread.2], hc'⟩, hend⟩

theorem validateSourceInstruction_position {pc : Nat} {i : Instruction}
    (h : validateSourceInstruction pc i profile p = .ok es) (q : Nat) :
    validateSourceInstruction pc i profile q = .ok es := by
  unfold validateSourceInstruction at h ⊢
  generalize i.op = op at h ⊢
  rcases op with _ | o
  · cases h
  · cases o <;> exact h

theorem validateSource_of_blocks (pc : Nat) (done : List Nat) (hlen : offsets.length = rest.length)
    (hbody : ∀ {j : Nat} {i : Instruction}, rest[j]? = some i → ∃ position es,
      validateSourceInstruction (pc + j) i profile position = .ok es ∧
      Block (Reads bytes) res es (nativeOffset offsets failure j)
        (nativeOffset offsets failure (j + 1)))
    (hp : c.position = nativeOffset offsets failure 0) (hres : c.Right res) :
    ∃ c', validateSource bytes profile pc rest done c = .ok (done ++ offsets, c') ∧
      c'.position = failure ∧ c'.Right res := by
  induction rest generalizing pc offsets done c with
  | nil =>
    obtain rfl := List.length_eq_zero_iff.mp hlen
    exact ⟨c, by simp [validateSource], hp, hres⟩
  | cons i rest ih =>
    obtain _ | ⟨first, offsets⟩ := offsets
    · cases hlen
    obtain ⟨position, es, hes, hblock⟩ := hbody (j := 0) rfl
    obtain ⟨c₁, hc₁, hp₁, hres₁⟩ := Checker.expectAll_of_block pc pc hblock hp hres
    have hrest {j : Nat} {i : Instruction} (hj : rest[j]? = some i) := hbody (j := j + 1) hj
    simp only [← Nat.add_assoc, Nat.add_right_comm pc _ 1] at hrest
    obtain ⟨c', hc', hend⟩ := ih (pc + 1) (done ++ [c.position]) (Nat.succ.inj hlen) hrest hp₁ hres₁
    refine ⟨c', ?_, hend⟩
    unfold validateSource
    refine bind_eq_ok.mpr ⟨es, validateSourceInstruction_position hes _, ?_⟩
    refine bind_eq_ok.mpr ⟨c₁, hc₁, ?_⟩
    rw [hc', hp, List.append_assoc]
    rfl

theorem validateTargets_of_forall {ts : List TargetCheck}
    (h : ∀ t ∈ ts, t.expected.offset offsets failure epilogue = some t.actual) :
    validateTargets offsets failure epilogue ts = .ok () := by
  induction ts with
  | nil => rfl
  | cons t ts ih =>
    rw [validateTargets, if_pos (h t (List.mem_cons_self ..))]
    exact ih fun u hu => h u (List.mem_cons_of_mem _ hu)

/-- **The validator accepts the layouts and nothing else**: an image within the size limit, for a
source within the contract, whose operations lie as the lowering has them. -/
theorem validateTranslationLayout_eq_ok :
    validateTranslationLayout bytes source profile = .ok offsets ↔
      bytes.length ≤ maxCodeImageBytes ∧ validateSourceContract source profile = .ok () ∧
      ∃ failure epilogue,
        Layout (Reads bytes) source profile offsets failure epilogue bytes.length := by
  constructor
  · intro h
    refine ⟨?_, layout_of_validate h⟩
    by_contra hsize
    rw [validateTranslationLayout, if_pos (not_le.mp hsize)] at h
    cases h
  · rintro ⟨hsize, hcontract, failure, epilogue, h⟩
    obtain ⟨c₁, hpro, hp₁, hres₁⟩ := Checker.expectAll_of_block (c := ⟨0, []⟩) 0 0 h.prologue rfl
      fun t ht => by cases ht
    obtain ⟨c₂, hsrc, hp₂, hres₂⟩ := validateSource_of_blocks 0 [] h.length
      (fun hi => by simpa using h.body hi) hp₁ hres₁
    obtain ⟨c₃, hfail, hp₃, hres₃⟩ := Checker.expectAll_of_block 0 (source.length - 1)
      h.failureBlock hp₂ hres₂
    obtain ⟨c₄, hepi, hp₄, hres₄⟩ := Checker.expectAll_of_block 0 0 h.epilogueBlock hp₃ hres₃
    rw [validateTranslationLayout, if_neg (not_lt.mpr hsize)]
    refine bind_eq_ok.mpr ⟨(), hcontract, bind_eq_ok.mpr ⟨c₁, hpro, ?_⟩⟩
    refine bind_eq_ok.mpr ⟨(_, c₂), hsrc, bind_eq_ok.mpr ⟨c₃, hfail, bind_eq_ok.mpr ⟨c₄, hepi, ?_⟩⟩⟩
    rw [if_neg (not_ne_iff.mpr hp₄), hp₂, hp₃, List.nil_append]
    exact bind_eq_ok.mpr ⟨(), validateTargets_of_forall hres₄, rfl⟩

end Complete

/-! ### The sweep over accepted bytes -/

/-- Every expectation of the list is for an operation whose byte immediate, if any, is small. -/
def SignSafe (es : List Expectation) : Prop := ∀ e ∈ es, e.Meets NativeOp.SignSafe

theorem signSafe_cons {e : Expectation} :
    SignSafe (e :: es) ↔ e.Meets NativeOp.SignSafe ∧ SignSafe es := by
  simp [SignSafe]

def Expectation.signSafe : Expectation → Bool
  | .op o => o.byteImmediate.all (·.toNat < 128)
  | .jcc _ _ | .jump _ => true

theorem SignSafe.of_all (h : es.all Expectation.signSafe = true) : SignSafe es := by
  intro e he
  have hsafe := List.all_eq_true.mp h e he
  cases e with
  | op o =>
    intro v hv
    simpa [Expectation.signSafe, hv] using hsafe
  | jcc | jump =>
    intro dest v hv
    cases hv

theorem signSafe_prologue (profile : InputProfile) : SignSafe (validatePrologue profile) :=
  .of_all (by cases profile <;> rfl)

theorem signSafe_failure : SignSafe validateFailure := .of_all rfl

theorem signSafe_epilogue : SignSafe validateEpilogue := .of_all rfl

theorem signSafe_sourceInstruction {pc position : Nat} {i : Instruction} {profile : InputProfile}
    (h : validateSourceInstruction pc i profile position = .ok es) : SignSafe es := by
  refine .of_all ?_
  unfold validateSourceInstruction at h
  rcases hop : i.op with _ | o
  · simp [hop] at h
  simp only [hop] at h
  cases o with
  | ldAbs width =>
    simp only [validateAbsoluteLoad] at h
    split at h
    · split at h <;> cases h
      rfl
    · cases h
      cases width <;> cases profile <;> rfl
  | ldInd width =>
    cases h
    cases width <;> cases profile <;> rfl
  | ldxBMsh =>
    simp only [validateAbsoluteLoadToX] at h
    split at h <;> cases h
    rfl
  | alu op src | jmp op src =>
    cases h
    cases op <;> cases src <;> rfl
  | _ =>
    cases h
    rfl

/-- A sweep from the start of a block stays on expected operations until it leaves the block. -/
theorem Block.sweep {res : Target → Option Nat} {p r x : Nat}
    (hb : Block (Reads bytes) res es p r) (hes : SignSafe es) (hx : Sweep bytes p x) :
    Sweep bytes r x ∨ ∃ o q, decodeOperation x (bytes.drop x) = some (o, q) ∧ o.SignSafe := by
  -- one operation: the sweep stops here, or goes where the block goes
  have step : ∀ {p q : Nat} {o : NativeOp}, Reads bytes p o q → o.SignSafe → Sweep bytes p x →
      Sweep bytes q x ∨ ∃ o q, decodeOperation x (bytes.drop x) = some (o, q) ∧ o.SignSafe := by
    intro p q o hr ho hx
    cases hx with
    | here => exact .inr ⟨o, q, hr.2, ho⟩
    | next hd t =>
      rw [hr.2] at hd
      cases hd
      exact .inl t
  induction hb with
  | nil p => exact .inl hx
  | op h _ ih =>
    obtain ⟨he, hes⟩ := signSafe_cons.mp hes
    exact (step h he hx).elim (ih hes) .inr
  | jcc h _ _ ih | jump h _ _ ih =>
    obtain ⟨he, hes⟩ := signSafe_cons.mp hes
    exact (step h (he _) hx).elim (ih hes) .inr

section Sweep

variable {bytes : List Byte} {source : List Instruction} {profile : InputProfile}
  {offsets : List Nat} {failure epilogue : Nat}

/-- **The sweep over accepted bytes meets expected operations only.** -/
theorem Layout.sweep
    (h : Layout (Reads bytes) source profile offsets failure epilogue bytes.length) {x : Nat}
    (hx : Sweep bytes 0 x) :
    x = bytes.length ∨ ∃ o q, decodeOperation x (bytes.drop x) = some (o, q) ∧ o.SignSafe := by
  -- from the start of any instruction to the failure block, by induction on those left
  have body : ∀ (n pc : Nat), pc + n = source.length →
      Sweep bytes (nativeOffset offsets failure pc) x → Sweep bytes failure x ∨
        ∃ o q, decodeOperation x (bytes.drop x) = some (o, q) ∧ o.SignSafe := by
    intro n
    induction n with
    | zero =>
      intro pc hpc hx
      have : nativeOffset offsets failure pc = failure := by
        simp [nativeOffset, List.getD, h.length, show source.length ≤ pc by omega]
      rw [this] at hx
      exact .inl hx
    | succ n ih =>
      intro pc hpc hx
      obtain ⟨position, es, hes, hb⟩ :=
        h.body (List.getElem?_eq_getElem (show pc < source.length by omega))
      exact (hb.sweep (signSafe_sourceInstruction hes) hx).elim (ih (pc + 1) (by omega)) .inr
  rcases h.prologue.sweep (signSafe_prologue profile) hx with hx | hx
  · rcases body source.length 0 (by omega) hx with hx | hx
    · rcases h.failureBlock.sweep signSafe_failure hx with hx | hx
      · rcases h.epilogueBlock.sweep signSafe_epilogue hx with hx | hx
        · cases hx with
          | here => exact .inl rfl
          | next hd _ =>
            rw [List.drop_length] at hd
            cases hd
        · exact .inr hx
      · exact .inr hx
    · exact .inr hx
  · exact .inr hx

/-- The machine decodes the operation at `p` as the instruction `o` names. -/
def Encodes (bytes : List Byte) (p : Nat) (o : NativeOp) (q : Nat) : Prop :=
  NamedBy o (X86.decode p (bytes.drop p)) q

/-- No operation of the sweep is the unprefixed `8b 06`. -/
def NoShortLoad (bytes : List Byte) : Prop :=
  ∀ p, Sweep bytes 0 p → ¬ ShortLoad (bytes.drop p)

/-- Without short loads, a layout under the validator's decoder is one under the machine's. -/
theorem Layout.encodes {stop : Nat}
    (h : Layout (Reads bytes) source profile offsets failure epilogue stop)
    (hshort : NoShortLoad bytes) :
    Layout (Encodes bytes) source profile offsets failure epilogue stop := by
  have hD : ∀ p o q, NativeOp.SignSafe o → Reads bytes p o q → Encodes bytes p o q :=
    fun p o q ho hr => decodeOperation_faithful hr.2 (hshort p hr.1) ho
  refine ⟨h.length, h.prologue.imp (signSafe_prologue profile) hD, ?_,
    h.failureBlock.imp signSafe_failure hD, h.epilogueBlock.imp signSafe_epilogue hD⟩
  intro pc i hi
  obtain ⟨position, es, hes, hb⟩ := h.body hi
  exact ⟨position, es, hes, hb.imp (signSafe_sourceInstruction hes) hD⟩

end Sweep

end KernelAx.Cbpf

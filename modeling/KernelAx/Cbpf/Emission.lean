import KernelAx.Cbpf.Translate
import KernelAx.Cbpf.Soundness

/-!
# Classic BPF — what the translator emits

The assembler's output as a list of cells, bytes and unresolved displacements; `Emits` says which
cells an emission function appends, `Coded` that cells encode a list of expectations, `Filled`
that the displacements have been resolved. Filled cells that encode the lowering of a program
form a layout.
-/

namespace KernelAx.Cbpf.Translate

open Assembler

open X86 (Byte le32)

/-! ### Cells -/

/-- An emitted byte, or a displacement of four bytes to be resolved. -/
inductive Cell where
  | byte (b : Byte)
  | disp (target : Target)

def raw (bs : List Byte) : List Cell := bs.map .byte

/-- The emitted bytes, with placeholders. -/
def blank : List Cell → List Byte
  | [] => []
  | .byte b :: cs => b :: blank cs
  | .disp _ :: cs => leBytes 0 ++ blank cs

/-- The patches of cells emitted at `p`. -/
def patchesAt : Nat → List Cell → List Patch
  | _, [] => []
  | p, .byte _ :: cs => patchesAt (p + 1) cs
  | p, .disp target :: cs => ⟨p, target⟩ :: patchesAt (p + 4) cs

/-- `bs` are the bytes of the cells at `p`, with resolved displacements. -/
inductive Filled (res : Target → Option Nat) : Nat → List Cell → List Byte → Prop where
  | nil (p : Nat) : Filled res p [] []
  | byte {p b cs bs} (t : Filled res (p + 1) cs bs) :
      Filled res p (.byte b :: cs) (b :: bs)
  | disp {p dest target v cs bs} (hto : res target = some dest) (hv : displacement p dest = some v)
      (t : Filled res (p + 4) cs bs) : Filled res p (.disp target :: cs) (leBytes v ++ bs)

/-- The cells encode the expectations: the validator's decoder reads each operation back, none
of them being a short load. -/
inductive Coded : List Expectation → List Cell → Prop where
  | nil : Coded [] []
  | op {o bs es cs} (h : ∀ p rest, decodeOperation p (bs ++ rest) = some (o, p + bs.length))
      (hs : ∀ rest, ¬ ShortLoad (bs ++ rest)) (t : Coded es cs) :
      Coded (.op o :: es) (raw bs ++ cs)
  | jcc {c target es cs} (t : Coded es cs) :
      Coded (.jcc c target :: es) (.byte 0x0f :: .byte (conditionByte c) :: .disp target :: cs)
  | jump {target es cs} (t : Coded es cs) :
      Coded (.jump target :: es) (.byte 0xe9 :: .disp target :: cs)

section

variable {res : Target → Option Nat} {p q : Nat} {cs cs' : List Cell} {bs bs' : List Byte}
  {es es' : List Expectation}

theorem length_leBytes (v : BitVec 32) : (leBytes v).length = 4 := rfl

theorem le32_leBytes (v : BitVec 32) :
    le32 (v.setWidth 8) ((v >>> 8).setWidth 8) ((v >>> 16).setWidth 8) ((v >>> 24).setWidth 8)
      = v := by
  have := v.isLt
  apply BitVec.eq_of_toNat_eq
  simp only [le32, toNat_append_byte, BitVec.toNat_setWidth, BitVec.toNat_ushiftRight,
    Nat.shiftRight_eq_div_pow]
  omega

theorem blank_append : blank (cs ++ cs') = blank cs ++ blank cs' := by
  induction cs with
  | nil => rfl
  | cons c cs ih => cases c <;> simp [blank, ih]

theorem blank_raw : blank (raw bs) = bs := by
  induction bs with
  | nil => rfl
  | cons b bs ih => simpa [raw, blank] using ih

theorem patchesAt_append :
    patchesAt p (cs ++ cs') = patchesAt p cs ++ patchesAt (p + (blank cs).length) cs' := by
  induction cs generalizing p with
  | nil => rfl
  | cons c cs ih =>
    cases c with
    | byte b => simp [patchesAt, blank, ih, Nat.add_assoc, Nat.add_comm 1]
    | disp target => simp [patchesAt, blank, ih, length_leBytes, Nat.add_assoc]

theorem patchesAt_raw : patchesAt p (raw bs) = [] := by
  induction bs generalizing p with
  | nil => rfl
  | cons b bs ih => exact ih

theorem Coded.append (h : Coded es cs) (h' : Coded es' cs') : Coded (es ++ es') (cs ++ cs') := by
  induction h with
  | nil => exact h'
  | op h hs _ ih =>
    rw [List.append_assoc]
    exact .op h hs ih
  | jcc _ ih => exact .jcc ih
  | jump _ ih => exact .jump ih

/-! ### Resolving -/

theorem copyFromSlice_placeholder (pre post : List Byte) (v : BitVec 32) :
    copyFromSlice (pre ++ (leBytes 0 ++ post)) pre.length v = pre ++ (leBytes v ++ post) := by
  have hdrop : (leBytes 0 ++ post).drop 4 = post := rfl
  simp only [copyFromSlice, List.take_left, ← List.drop_drop, List.drop_left, hdrop,
    List.append_assoc]

/-- **Resolving the patches fills the cells.** -/
theorem applyPatches_filled {offsets : List Nat} {failure epilogue : Nat} (pre : List Byte)
    {bytes : List Byte}
    (h : applyPatches offsets failure epilogue (patchesAt pre.length cs) (pre ++ blank cs)
      = .ok bytes) :
    ∃ bs, bytes = pre ++ bs ∧ Filled (Target.offset offsets failure epilogue) pre.length cs bs := by
  induction cs generalizing pre with
  | nil =>
    cases h
    exact ⟨[], by simp [blank], .nil _⟩
  | cons c cs ih =>
    cases c with
    | byte b =>
      have hcat : pre ++ blank (.byte b :: cs) = (pre ++ [b]) ++ blank cs := by simp [blank]
      have hlen : (pre ++ [b]).length = pre.length + 1 := by simp
      rw [hcat] at h
      obtain ⟨bs, hbs, hf⟩ := ih (pre ++ [b]) (by rw [hlen]; exact h)
      rw [hlen] at hf
      exact ⟨b :: bs, by simp [hbs], .byte hf⟩
    | disp target =>
      simp only [patchesAt, applyPatches] at h
      split at h
      · cases h
      rename_i dest hdest
      split at h
      · cases h
      rename_i v hv
      have hlen : (pre ++ leBytes v).length = pre.length + 4 := by simp [length_leBytes]
      rw [blank, copyFromSlice_placeholder, ← List.append_assoc] at h
      obtain ⟨bs, hbs, hf⟩ := ih (pre ++ leBytes v) (by rw [hlen]; exact h)
      rw [hlen] at hf
      exact ⟨leBytes v ++ bs, by simp [hbs], .disp hdest hv hf⟩

theorem Filled.of_raw (h : Filled res p (raw bs ++ cs) bs') :
    ∃ rest, bs' = bs ++ rest ∧ Filled res (p + bs.length) cs rest := by
  induction bs generalizing p bs' with
  | nil => exact ⟨bs', rfl, h⟩
  | cons b bs ih =>
    cases h with
    | byte t =>
      obtain ⟨rest, rfl, hr⟩ := ih t
      refine ⟨rest, rfl, ?_⟩
      rwa [List.length_cons, Nat.add_comm bs.length, ← Nat.add_assoc]

variable {v : BitVec 32} {pc : Nat} {profile : InputProfile} {is : List Instruction}

/-- The displacement leads back to the target. -/
theorem relativeTarget_displacement {dest : Nat} (h : displacement p dest = some v) :
    relativeTarget (p + 4) v = some dest := by
  unfold displacement at h
  dsimp only at h
  split at h
  · rename_i hrange
    cases h
    have hint : (BitVec.ofInt 32 ((dest : Int) - (p + 4 : Nat))).toInt
        = (dest : Int) - (p + 4 : Nat) := by
      rw [BitVec.toInt_ofInt, Int.bmod_eq_of_le (by omega) (by omega)]
    unfold relativeTarget
    rw [hint]
    split
    · congr 1
      omega
    · rw [if_pos (by omega)]
      congr 1
      omega
  · cases h

theorem withTarget_leBytes {dest : Nat} (h : displacement p dest = some v) (rest : List Byte)
    (f : Nat → NativeOp) : withTarget p (leBytes v ++ rest) f = some (f dest, p + 4) := by
  simp only [withTarget, leBytes, List.cons_append, le32_leBytes, relativeTarget_displacement h,
    Option.map_some]

theorem withImm32_leBytes (v : BitVec 32) (rest : List Byte) (f : BitVec 32 → NativeOp) :
    withImm32 p (leBytes v ++ rest) f = some (f v, p + 4) := by
  simp only [withImm32, leBytes, List.cons_append, le32_leBytes]

/-- What the translator guarantees of an operation: its decoder reads it, and it is no short
load. -/
def ReadsLong (image : List Byte) (p : Nat) (o : NativeOp) (q : Nat) : Prop :=
  decodeOperation p (image.drop p) = some (o, q) ∧ ¬ ShortLoad (image.drop p)

/-- **Filled cells that encode expectations are a block of them.** -/
theorem block_of_filled (image : List Byte) (h : Coded es cs) (hf : Filled res p (cs ++ cs') bs)
    (himage : image.drop p = bs) :
    Block (ReadsLong image) res es p (p + (blank cs).length) ∧
      Filled res (p + (blank cs).length) cs' (image.drop (p + (blank cs).length)) := by
  subst himage
  induction h generalizing p with
  | nil => exact ⟨.nil p, hf⟩
  | @op o bs es cs hd hs _ ih =>
    rw [List.append_assoc] at hf
    obtain ⟨rest, hrest, hr⟩ := hf.of_raw
    have hdrop : image.drop (p + bs.length) = rest := by
      rw [← List.drop_drop, hrest, List.drop_left]
    rw [← hdrop] at hr
    obtain ⟨hb, hf'⟩ := ih hr
    rw [blank_append, blank_raw, List.length_append, ← Nat.add_assoc]
    refine ⟨.op ⟨?_, ?_⟩ hb, hf'⟩
    · rw [hrest]
      exact hd p rest
    · rw [hrest]
      exact hs rest
  | @jcc c target es cs _ ih =>
    generalize hbs : image.drop p = bs at hf
    obtain _ | hf := hf
    obtain _ | hf := hf
    obtain _ | _ | ⟨hto, hv, hf⟩ := hf
    rename_i dest v rest
    have hdrop : image.drop (p + 6) = rest := by
      rw [← List.drop_drop, hbs]
      rfl
    have hlen : p + (blank (.byte 0x0f :: .byte (conditionByte c) :: .disp target :: cs)).length
        = p + 6 + (blank cs).length := by
      simp [blank, length_leBytes]
      omega
    rw [← hdrop] at hf
    obtain ⟨hb, hf'⟩ := ih hf
    rw [hlen]
    refine ⟨.jcc ⟨?_, ?_⟩ hto hb, hf'⟩
    · rw [hbs]
      have htarget := fun f => withTarget_leBytes hv rest f
      cases c <;> exact htarget _
    · rw [hbs]
      simp [ShortLoad]
  | @jump target es cs _ ih =>
    generalize hbs : image.drop p = bs at hf
    obtain _ | hf := hf
    obtain _ | _ | ⟨hto, hv, hf⟩ := hf
    rename_i dest v rest
    have hdrop : image.drop (p + 5) = rest := by
      rw [← List.drop_drop, hbs]
      rfl
    have hlen : p + (blank (.byte 0xe9 :: .disp target :: cs)).length
        = p + 5 + (blank cs).length := by
      simp [blank, length_leBytes]
      omega
    rw [← hdrop] at hf
    obtain ⟨hb, hf'⟩ := ih hf
    rw [hlen]
    refine ⟨.jump ⟨?_, ?_⟩ hto hb, hf'⟩
    · rw [hbs]
      exact withTarget_leBytes hv rest _
    · rw [hbs]
      simp [ShortLoad]

/-! ### Emission -/

/-- The assembler has appended the cells. -/
structure Emits (a : Assembler) (cs : List Cell) (a' : Assembler) : Prop where
  bytes : a'.bytes = a.bytes ++ blank cs
  patches : a'.patches = a.patches ++ patchesAt a.bytes.length cs

/-- The assembler has appended an encoding of the expectations. -/
def Lowered (a : Assembler) (es : List Expectation) (a' : Assembler) : Prop :=
  ∃ cs, Emits a cs a' ∧ Coded es cs

variable {a a' a'' : Assembler}

theorem Emits.trans (h : Emits a cs a') (h' : Emits a' cs' a'') : Emits a (cs ++ cs') a'' := by
  refine ⟨?_, ?_⟩
  · rw [h'.bytes, h.bytes, blank_append, List.append_assoc]
  · rw [h'.patches, h.patches, h.bytes, patchesAt_append, List.append_assoc, List.length_append]

theorem Lowered.append (h : Lowered a es a') (h' : Lowered a' es' a'') :
    Lowered a (es ++ es') a'' := by
  obtain ⟨cs, he, hc⟩ := h
  obtain ⟨cs', he', hc'⟩ := h'
  exact ⟨cs ++ cs', he.trans he', hc.append hc'⟩

theorem Lowered.cons {e : Expectation} (h : Lowered a [e] a') (h' : Lowered a' es a'') :
    Lowered a (e :: es) a'' :=
  h.append h'

theorem Lowered.nil (a : Assembler) : Lowered a [] a :=
  ⟨[], ⟨by simp [blank], by simp [patchesAt]⟩, .nil⟩

/-- A short load would be decoded as two bytes. -/
theorem not_shortLoad {o : NativeOp}
    (h : ∀ {p rest}, decodeOperation p (bs ++ rest) = some (o, p + bs.length))
    (hne : (bs == [0x8b, 0x06]) = false) (rest : List Byte) : ¬ ShortLoad (bs ++ rest) := by
  intro hshort
  have hlen : bs.length = 2 := by
    have hd := (h (p := 0)).symm.trans (shortLoad_misread 0 hshort).1
    simp only [Option.some.injEq, Prod.mk.injEq] at hd
    omega
  rw [ShortLoad, ← hlen, List.take_left] at hshort
  exact ne_of_beq_false hne hshort

/-- One operation. -/
theorem Lowered.op {o : NativeOp} (bs : List Byte)
    (h : ∀ {p rest}, decodeOperation p (bs ++ rest) = some (o, p + bs.length))
    (hne : (bs == [0x8b, 0x06]) = false) : Lowered a [.op o] (a.extend bs) := by
  refine ⟨raw bs, ⟨?_, ?_⟩, ?_⟩
  · rw [blank_raw]
    rfl
  · rw [patchesAt_raw, List.append_nil]
    rfl
  · simpa using Coded.op (fun _ _ => h) (not_shortLoad h hne) .nil

theorem extend_append (a : Assembler) (bs bs' : List Byte) :
    a.extend (bs ++ bs') = (a.extend bs).extend bs' := by
  simp [extend]

/-- An operation with an immediate. -/
theorem Lowered.imm {f : BitVec 32 → NativeOp} (bs : List Byte)
    (h : ∀ {p rest}, decodeOperation p (bs ++ rest) = withImm32 (p + bs.length) rest f) :
    Lowered a [.op (f v)] ((a.extend bs).u32 v) := by
  rw [u32, ← extend_append]
  refine .op _ ?_ (beq_false_of_ne fun hbs => ?_)
  · intro p rest
    rw [List.append_assoc, h, withImm32_leBytes, List.length_append, length_leBytes, Nat.add_assoc]
  · have := congrArg List.length hbs
    simp [length_leBytes] at this

theorem emits_placeholder (a : Assembler) (target : Target) :
    Emits a [.disp target] (a.placeholder target).1 :=
  ⟨by simp [placeholder, u32, extend, blank],
    by simp [placeholder, u32, extend, patchesAt]⟩

theorem emits_extend (a : Assembler) (bs : List Byte) : Emits a (raw bs) (a.extend bs) :=
  ⟨by rw [blank_raw]; rfl, by rw [patchesAt_raw, List.append_nil]; rfl⟩

theorem Lowered.jcc (c : Condition) (target : Target) :
    Lowered a [.jcc c target] (a.jcc c target).1 :=
  ⟨_, (emits_extend a [0x0f, conditionByte c]).trans (emits_placeholder _ target), .jcc .nil⟩

theorem Lowered.jump (target : Target) : Lowered a [.jump target] (a.emitJump target).1 :=
  ⟨_, (emits_extend a [0xe9]).trans (emits_placeholder _ target), .jump .nil⟩

/-- Branch sites are no part of the code. -/
theorem Lowered.branches (h : Lowered a es a') (b : List BranchSite) :
    Lowered a es { a' with branches := b } := by
  obtain ⟨cs, he, hc⟩ := h
  exact ⟨cs, ⟨he.bytes, he.patches⟩, hc⟩

/-! ### Lowerings -/

/-- A slice of several operations. -/
theorem Lowered.slice {e : Expectation} (h : Lowered a [e] (a.extend bs))
    (h' : Lowered (a.extend bs) es ((a.extend bs).extend bs')) :
    Lowered a (e :: es) (a.extend (bs ++ bs')) := by
  rw [extend_append]
  exact h.cons h'

theorem lowered_prologue (profile : InputProfile) :
    Lowered a (validatePrologue profile) (a.emitPrologue profile) := by
  have hframe : Lowered a prologueFrame (a.extend [0x55, 0x41, 0x54, 0x41, 0x55, 0x41, 0x56, 0x41,
      0x57, 0x48, 0x89, 0xe5, 0x48, 0x83, 0xec, 0x40]) :=
    .slice (.op [0x55] rfl rfl)
      (.slice (.op [0x41, 0x54] rfl rfl)
      (.slice (.op [0x41, 0x55] rfl rfl)
      (.slice (.op [0x41, 0x56] rfl rfl)
      (.slice (.op [0x41, 0x57] rfl rfl)
      (.slice (.op [0x48, 0x89, 0xe5] rfl rfl)
        (.op [0x48, 0x83, 0xec, 0x40] rfl rfl))))))
  have hclear : ∀ a : Assembler, Lowered a prologueClear (a.extend [0x31, 0xc0, 0x31, 0xc9]) :=
    fun _ => .slice (.op [0x31, 0xc0] rfl rfl)
      (.op [0x31, 0xc9] rfl rfl)
  refine hframe.append (.append ?_ (hclear _))
  cases profile with
  | packetContextBigEndian =>
    exact .slice (.op [0x4c, 0x8b, 0x27] rfl rfl)
      (.op [0x44, 0x8b, 0x6f, _] rfl rfl)
  | _ =>
    exact .slice (.op [0x49, 0x89, 0xfc] rfl rfl)
      (.op [0x41, 0x89, 0xf5] rfl rfl)

theorem lowered_bounds (width : LoadWidth) :
    Lowered a (validateBounds width) (a.emitBounds width) := by
  have hw : ∀ f : BitVec 32 → NativeOp,
      f ((BitVec.ofNat 8 width.bytes).setWidth 32) = f (BitVec.ofNat 32 width.bytes) := by
    intro f
    cases width <;> rfl
  refine .cons (.op [0x41, 0x83, 0xfd, BitVec.ofNat 8 width.bytes] ?_ rfl) ?_
  · exact congrArg (fun o => some (o, _))
      (hw fun v => .compare .word (.register .r13d) (.immediate v))
  refine .cons (.jcc _ _) (.cons (.op [0x45, 0x89, 0xef] rfl rfl) ?_)
  refine .cons (.op [0x41, 0x83, 0xef, BitVec.ofNat 8 width.bytes] ?_ rfl) ?_
  · exact congrArg (fun o => some (o, _)) (hw fun v => binaryImm .sub .word .r15d v)
  exact .cons (.op [0x45, 0x39, 0xf7] rfl rfl) (.jcc _ _)

theorem lowered_addressAdd : Lowered a validateAddressAdd a.addR14R12 :=
  .cons (.op [0x4d, 0x01, 0xe6] rfl rfl) (.jcc _ _)

theorem lowered_guardedLoad (width : LoadWidth) (profile : InputProfile) :
    Lowered a (validateGuardedLoad width profile)
      (a.emitSpeculationBarrier.emitLoadR14 width profile) := by
  refine .cons (.op [0x0f, 0xae, 0xe8] rfl rfl) ?_
  cases width with
  | byte =>
    have hnone : validateEndianTransform .byte profile = [] := by cases profile <;> rfl
    rw [hnone]
    exact .op [0x41, 0x0f, 0xb6, 0x06] rfl rfl
  | half =>
    refine .cons (.op [0x41, 0x0f, 0xb7, 0x06] rfl rfl) ?_
    cases profile with
    | nativeAlignedWords => exact .nil _
    | _ => exact .op [0x66, 0xc1, 0xc0, 0x08] rfl rfl
  | word =>
    refine .cons (.op [0x41, 0x8b, 0x06] rfl rfl) ?_
    cases profile with
    | nativeAlignedWords => exact .nil _
    | _ => exact .op [0x0f, 0xc8] rfl rfl

theorem lowered_movR14 (v : BitVec 32) : Lowered a [.op (movImm .r14d v)] (a.movR14dImm v) :=
  .imm [0x41, 0xbe] rfl

theorem lowered_indLoad (offset : BitVec 32) (width : LoadWidth) (profile : InputProfile) :
    Lowered a (validateIndirectLoad offset width profile) (a.emitIndLoad offset width profile) := by
  refine .cons (.op [0x41, 0x89, 0xce] rfl rfl) ?_
  refine .cons (.imm [0x41, 0x81, 0xc6] rfl) ?_
  refine .cons (.jcc _ _) ?_
  rw [← List.append_assoc]
  refine .append ?_ (.append lowered_addressAdd (lowered_guardedLoad width profile))
  unfold emitBoundsInd
  refine .append (lowered_bounds width) ?_
  unfold validateAlignment
  split
  · exact .cons (.op [0x41, 0xf6, 0xc6, 0x03] rfl rfl) (.jcc _ _)
  · exact .nil _

theorem lowered_alu (op : AluOp) (src : Source) (k : BitVec 32) :
    Lowered a (validateAlu op src k) (a.emitAlu op src k) := by
  -- division by a constant and by X, with the remainder's move
  have hdivK : ∀ (op : AluOp) (r : Bool), (op = .mod ↔ r = true) →
      Lowered a (.op (movImm .r14d k) :: .op (binaryXor .edx .edx) ::
        .op (.divide .word (.register .r14d)) :: remainderMove op) (a.divImm k r) := by
    intro op r hr
    refine .cons (lowered_movR14 k) ?_
    unfold divImm remainderMove
    have hdiv : ∀ a : Assembler, Lowered a
        [.op (binaryXor .edx .edx), .op (.divide .word (.register .r14d))]
        (a.extend [0x31, 0xd2, 0x41, 0xf7, 0xf6]) := fun _ =>
      .slice (.op [0x31, 0xd2] rfl rfl)
        (.op [0x41, 0xf7, 0xf6] rfl rfl)
    by_cases h : op = .mod
    · rw [if_pos h, if_pos (hr.mp h)]
      exact (hdiv _).append (.op [0x89, 0xd0] rfl rfl)
    · rw [if_neg h, if_neg (fun h' => h (hr.mpr h'))]
      exact hdiv _
  have hdivX : ∀ (op : AluOp) (r : Bool), (op = .mod ↔ r = true) →
      Lowered a (.op (.test .word (.register .ecx) (.register .ecx)) :: .jcc .equal .failure ::
        .op (binaryXor .edx .edx) :: .op (.divide .word (.register .ecx)) :: remainderMove op)
        (a.divX r) := by
    intro op r hr
    refine .cons (.op [0x85, 0xc9] rfl rfl) (.cons (.jcc _ _) ?_)
    unfold divX remainderMove
    have hdiv : ∀ a : Assembler, Lowered a
        [.op (binaryXor .edx .edx), .op (.divide .word (.register .ecx))]
        (a.extend [0x31, 0xd2, 0xf7, 0xf1]) := fun _ =>
      .slice (.op [0x31, 0xd2] rfl rfl)
        (.op [0xf7, 0xf1] rfl rfl)
    by_cases h : op = .mod
    · rw [if_pos h, if_pos (hr.mp h)]
      exact (hdiv _).append (.op [0x89, 0xd0] rfl rfl)
    · rw [if_neg h, if_neg (fun h' => h (hr.mpr h'))]
      exact hdiv _
  have hshiftX : ∀ {kind : ShiftKind} {modrm : Byte},
      (∀ {p rest}, decodeOperation p ([0xd3, modrm] ++ rest)
        = some (.shiftRegister kind .word .eax, p + 2)) →
      Lowered a [.op (movReg .word .r14d .ecx), .op (binaryImm .and .word .r14d 0x1f),
        .op (movReg .word .r15d .ecx), .op (movReg .word .ecx .r14d),
        .op (.shiftRegister kind .word .eax), .op (movReg .word .ecx .r15d)]
        (a.shiftX 0xd3 modrm) := fun h =>
    .slice (.op [0x41, 0x89, 0xce] rfl rfl)
      (.slice (.op [0x41, 0x83, 0xe6, 0x1f] rfl rfl)
      (.slice (.op [0x41, 0x89, 0xcf] rfl rfl)
      (.slice (.op [0x44, 0x89, 0xf1] rfl rfl)
      (.slice (.op [0xd3, _] h rfl)
        (.op [0x44, 0x89, 0xf9] rfl rfl)))))
  cases op with
  | mul =>
    cases src with
    | k => exact .imm [0x69, 0xc0] rfl
    | x => exact .op [0x0f, 0xaf, 0xc1] rfl rfl
  | div =>
    cases src with
    | k => exact hdivK .div false (by simp)
    | x => exact hdivX .div false (by simp)
  | mod =>
    cases src with
    | k => exact hdivK .mod true (by simp)
    | x => exact hdivX .mod true (by simp)
  | lsh =>
    cases src with
    | k => exact .op [0xc1, 0xe0, _] rfl rfl
    | x => exact hshiftX rfl
  | rsh =>
    cases src with
    | k => exact .op [0xc1, 0xe8, _] rfl rfl
    | x => exact hshiftX rfl
  | add =>
    cases src with
    | k => exact .imm [0x05] rfl
    | x => exact .op [0x01, 0xc8] rfl rfl
  | sub =>
    cases src with
    | k => exact .imm [0x2d] rfl
    | x => exact .op [0x29, 0xc8] rfl rfl
  | or =>
    cases src with
    | k => exact .imm [0x0d] rfl
    | x => exact .op [0x09, 0xc8] rfl rfl
  | and =>
    cases src with
    | k => exact .imm [0x25] rfl
    | x => exact .op [0x21, 0xc8] rfl rfl
  | xor =>
    cases src with
    | k => exact .imm [0x35] rfl
    | x => exact .op [0x31, 0xc8] rfl rfl

theorem lowered_conditional {i : Instruction} {op : JmpOp} (k : BitVec 32) (src : Source) :
    Lowered a [validateComparison op src k, .jcc (jumpCondition op) (.source (pc + 1 + i.jt.toNat)),
        .jump (.source (pc + 1 + i.jf.toNat))]
      (a.emitConditional (jumpCondition op) (match src with | .k => k | .x => 0) i
        (match src with | .k => false | .x => true) pc) := by
  refine .branches (.cons ?_ (.cons (.jcc _ _) (.jump _))) _
  cases src with
  | k =>
    cases op with
    | jset =>
      exact .imm (f := fun v => .test .word (.register .eax) (.immediate v)) [0xa9] rfl
    | _ =>
      exact .imm (f := fun v => .compare .word (.register .eax) (.immediate v)) [0x3d] rfl
  | x =>
    cases op with
    | jset => exact .op [0x85, 0xc8] rfl rfl
    | _ => exact .op [0x39, 0xc8] rfl rfl

/-- Ancillary offsets have the top bit set. -/
theorem ancillary_high_bit {offset : BitVec 32} {field : Ancillary}
    (h : ancillaryFromOffset offset = some field) : offset &&& 0x80000000 ≠ 0 := by
  have he : offset = field.encodedOffset := by simpa using List.find?_some h
  subst he
  cases field <;> decide

/-- **Each source instruction is emitted as its lowering.** -/
theorem lowered_instruction {i : Instruction} (hstmt : checkStatement pc i = .ok ())
    (hprofile : outsideProfile i profile = false) (position : Nat) :
    ∃ es, Cbpf.validateSourceInstruction pc i profile position = .ok es ∧
      Lowered a es (a.emitInstruction pc i profile) := by
  unfold checkStatement at hstmt
  unfold outsideProfile at hprofile
  unfold Cbpf.validateSourceInstruction emitInstruction
  rcases hop : i.op with _ | o
  · simp [hop] at hstmt
  simp only [hop] at hstmt hprofile ⊢
  cases o with
  | ldImm => exact ⟨_, rfl, .imm [0xb8] rfl⟩
  | ldAbs width =>
    simp only [validateAbsoluteLoad, emitAbsLoad]
    cases hanc : ancillaryFromOffset i.k with
    | some field =>
      simp only [Bool.or_eq_false_iff, Bool.and_eq_false_iff] at hprofile
      have hctx : profile = .packetContextBigEndian := by
        simpa [hanc, isAncillaryOffset_of_some hanc] using hprofile.1
      simp only [hctx, if_true]
      refine ⟨_, rfl, .op [0x8b, 0x47, _] ?_ rfl⟩
      cases field <;> exact rfl
    | none =>
      exact ⟨_, rfl, .cons (lowered_movR14 i.k) (.append (lowered_bounds width)
        (.append lowered_addressAdd (lowered_guardedLoad width profile)))⟩
  | ldInd width => exact ⟨_, rfl, lowered_indLoad i.k width profile⟩
  | ldMem => exact ⟨_, rfl, .op [0x8b, 0x45, _] rfl rfl⟩
  | ldLen => exact ⟨_, rfl, .op [0x44, 0x89, 0xe8] rfl rfl⟩
  | ldxImm => exact ⟨_, rfl, .imm [0xb9] rfl⟩
  | ldxMem => exact ⟨_, rfl, .op [0x8b, 0x4d, _] rfl rfl⟩
  | ldxLen => exact ⟨_, rfl, .op [0x44, 0x89, 0xe9] rfl rfl⟩
  | ldxBMsh =>
    have hnone : (ancillaryFromOffset i.k).isSome = false := by
      rw [Bool.eq_false_iff]
      intro hsome
      obtain ⟨field, hfield⟩ := Option.isSome_iff_exists.mp hsome
      exact ancillary_high_bit hfield (by simpa using hstmt)
    simp only [validateAbsoluteLoadToX, hnone, Bool.false_eq_true, if_false]
    have hmask {a : Assembler} : Lowered a [.op (binaryImm .and .word .ecx 0x0f),
        .op (.shiftImmediate .left .word .ecx 2)] (a.extend [0x83, 0xe1, 0x0f, 0xc1, 0xe1, 0x02]) :=
      .slice (.op [0x83, 0xe1, 0x0f] rfl rfl) (.op [0xc1, 0xe1, 0x02] rfl rfl)
    refine ⟨_, rfl, .append (show Lowered a _ (a.emitAbsLoadToX i.k) from
      .cons (lowered_movR14 i.k)
        (.append (lowered_bounds .byte) (.append lowered_addressAdd ?_))) ?_⟩
    · exact .cons (.op [0x0f, 0xae, 0xe8] rfl rfl) (.op [0x41, 0x0f, 0xb6, 0x0e] rfl rfl)
    · exact hmask
  | st => exact ⟨_, rfl, .op [0x89, 0x45, _] rfl rfl⟩
  | stx => exact ⟨_, rfl, .op [0x89, 0x4d, _] rfl rfl⟩
  | alu op src => exact ⟨_, rfl, lowered_alu op src i.k⟩
  | aluNeg => exact ⟨_, rfl, .op [0xf7, 0xd8] rfl rfl⟩
  | jmpJa => exact ⟨_, rfl, .branches (.jump _) _⟩
  | jmp op src =>
    cases src with
    | k => exact ⟨_, rfl, lowered_conditional i.k .k⟩
    | x => exact ⟨_, rfl, lowered_conditional i.k .x⟩
  | retK =>
    exact ⟨_, rfl, .cons (.imm [0xb8] rfl) (.jump _)⟩
  | retA => exact ⟨_, rfl, .jump _⟩
  | miscTax => exact ⟨_, rfl, .op [0x89, 0xc1] rfl rfl⟩
  | miscTxa => exact ⟨_, rfl, .op [0x89, 0xc8] rfl rfl⟩

theorem lowered_failure : Lowered a validateFailure a.emitZeroReturn :=
  .cons (.op [0x31, 0xc0] rfl rfl) (.jump _)

theorem lowered_epilogue : Lowered a validateEpilogue a.emitEpilogue :=
  .slice (.op [0x48, 0x83, 0xc4, 0x40] rfl rfl)
    (.slice (.op [0x41, 0x5f] rfl rfl)
    (.slice (.op [0x41, 0x5e] rfl rfl)
    (.slice (.op [0x41, 0x5d] rfl rfl)
    (.slice (.op [0x41, 0x5c] rfl rfl)
    (.slice (.op [0x5d] rfl rfl)
      (.op [0xc3] rfl rfl))))))

/-! ### The emission loop -/

/-- The offsets of consecutive blocks from `p` on. -/
def starts : Nat → List (List Cell) → List Nat
  | _, [] => []
  | p, b :: bs => p :: starts (p + (blank b).length) bs

/-- The cells of each source instruction from `pc` on. -/
inductive CodedSource (profile : InputProfile) :
    Nat → List Instruction → List (List Cell) → Prop where
  | nil (pc : Nat) : CodedSource profile pc [] []
  | cons {pc position i is es b bs}
      (hes : Cbpf.validateSourceInstruction pc i profile position = .ok es) (hb : Coded es b)
      (t : CodedSource profile (pc + 1) is bs) : CodedSource profile pc (i :: is) (b :: bs)

/-- The emission loop appends one block of cells per source instruction and maps its offset. -/
theorem emitSource_coded {boundaries boundaries' : List Nat} {map map' : List InstructionMap}
    (hstmt : ∀ {j : Nat} {i : Instruction}, is[j]? = some i → checkStatement (pc + j) i = .ok ())
    (hprofile : ∀ {j : Nat} {i : Instruction}, is[j]? = some i → outsideProfile i profile = false)
    (h : emitSource profile pc is a boundaries map = .ok (a', boundaries', map')) :
    ∃ blocks, CodedSource profile pc is blocks ∧ Emits a blocks.flatten a' ∧
      map'.map InstructionMap.offset
        = map.map InstructionMap.offset ++ starts a.bytes.length blocks := by
  induction is generalizing pc a boundaries map with
  | nil =>
    cases h
    exact ⟨[], .nil pc, ⟨by simp [blank], by simp [patchesAt]⟩, by simp [starts]⟩
  | cons i is ih =>
    obtain ⟨stop, -, h⟩ := bind_eq_ok.mp h
    obtain ⟨start, hstart, h⟩ := bind_eq_ok.mp h
    obtain ⟨len, -, h⟩ := bind_eq_ok.mp h
    have hstart' : start = a.bytes.length := by
      unfold tryU32 at hstart
      split at hstart <;> cases hstart
      rfl
    obtain ⟨es, hes, b, hb, hc⟩ := lowered_instruction (a := a)
      (by simpa using hstmt (j := 0) rfl) (hprofile (j := 0) rfl) 0
    obtain ⟨blocks, hcs, hem, hmap⟩ := ih
      (fun {j} {i'} hi => by
        have := hstmt (j := j + 1) (by simpa using hi)
        rwa [Nat.add_comm j, ← Nat.add_assoc] at this)
      (fun {j} {i'} hi => hprofile (j := j + 1) (by simpa using hi)) h
    refine ⟨b :: blocks, .cons hes hc hcs, hb.trans hem, ?_⟩
    rw [hmap, hb.bytes, hstart']
    simp [starts]

/-- Filled blocks of a source, one behind the other. -/
theorem blocks_of_filled {image : List Byte} {failure : Nat} {blocks : List (List Cell)}
    (h : CodedSource profile pc is blocks)
    (hf : Filled res p (blocks.flatten ++ cs) (image.drop p))
    (hfailure : failure = p + (blank blocks.flatten).length) :
    (starts p blocks).length = is.length ∧ nativeOffset (starts p blocks) failure 0 = p ∧
    Filled res failure cs (image.drop failure) ∧
    ∀ {j : Nat} {i : Instruction}, is[j]? = some i → ∃ position es,
      Cbpf.validateSourceInstruction (pc + j) i profile position = .ok es ∧
      Block (ReadsLong image) res es (nativeOffset (starts p blocks) failure j)
        (nativeOffset (starts p blocks) failure (j + 1)) := by
  induction h generalizing p with
  | nil pc =>
    obtain rfl : failure = p := by simpa [blank] using hfailure
    exact ⟨rfl, rfl, by simpa using hf, fun hj => by simp at hj⟩
  | @cons pc position i is es b bs hes hb _ ih =>
    rw [List.flatten_cons, List.append_assoc] at hf
    obtain ⟨hblock, hf'⟩ := block_of_filled _ hb hf rfl
    obtain ⟨hlen, hstart, hfill, hblocks⟩ := ih hf' (by
      rw [hfailure, List.flatten_cons, blank_append, List.length_append, Nat.add_assoc])
    refine ⟨by simp [starts, hlen], rfl, hfill, ?_⟩
    intro j i' hi'
    cases j with
    | zero =>
      obtain rfl : i = i' := by simpa using hi'
      refine ⟨position, es, hes, ?_⟩
      rw [show nativeOffset (starts p (b :: bs)) failure (0 + 1) = p + (blank b).length
        from hstart]
      exact hblock
    | succ j =>
      obtain ⟨position', es', hes', hb'⟩ := hblocks (by simpa using hi')
      refine ⟨position', es', ?_, hb'⟩
      rwa [show pc + (j + 1) = pc + 1 + j by omega]

/-! ### Images -/

theorem validateProfile_ok :
    ∀ {pc : Nat}, validateProfile profile pc is = .ok () →
      ∀ {j : Nat} {i : Instruction}, is[j]? = some i → outsideProfile i profile = false := by
  induction is with
  | nil => intro pc _ j i hi; simp at hi
  | cons i is ih =>
    intro pc h j i' hi
    unfold validateProfile at h
    split at h
    · cases h
    rename_i hout
    cases j with
    | zero =>
      obtain rfl : i = i' := by simpa using hi
      exact Bool.eq_false_iff.mpr hout
    | succ j => exact ih h (by simpa using hi)

/-- The passes an image has gone through. -/
theorem translateProgram_passes {source : List Instruction} {image : CodeImage}
    (h : translateProgram source profile = .ok image) :
    validateProfile profile 0 source = .ok () ∧ ∃ entry a boundaries map,
      emitSource profile 0 source (new.emitPrologue profile) [entry] []
        = .ok (a, boundaries, map) ∧
      applyPatches (map.map InstructionMap.offset) a.bytes.length a.emitZeroReturn.bytes.length
        a.emitZeroReturn.emitEpilogue.patches a.emitZeroReturn.emitEpilogue.bytes
        = .ok image.bytes := by
  obtain ⟨⟨⟩, hprofile, h⟩ := bind_eq_ok.mp h
  obtain ⟨⟨⟩, -, h⟩ := bind_eq_ok.mp h
  obtain ⟨⟨⟩, -, h⟩ := bind_eq_ok.mp h
  obtain ⟨entry, -, h⟩ := bind_eq_ok.mp h
  obtain ⟨⟨a, boundaries, map⟩, hsource, h⟩ := bind_eq_ok.mp h
  obtain ⟨resolved, hresolve, h⟩ := bind_eq_ok.mp h
  split at h
  · cases h
  obtain ⟨stop, -, h⟩ := bind_eq_ok.mp h
  obtain ⟨⟨⟩, -, h⟩ := bind_eq_ok.mp h
  cases h
  obtain ⟨bytes, hbytes, hresolve⟩ := bind_eq_ok.mp hresolve
  have hresolved : resolved.bytes = bytes := by
    split at hresolve
    · split at hresolve <;> cases hresolve
      rfl
    · cases hresolve
  refine ⟨hprofile, entry, a, boundaries, map, hsource, ?_⟩
  rw [hresolved]
  exact hbytes

/-- **An image the translator returns has a layout**, as the machine decodes it. -/
theorem translateProgram_layout {source : List Instruction} {image : CodeImage}
    (hwf : WellFormed source) (h : translateProgram source profile = .ok image) :
    FitsProfile source profile ∧ ∃ offsets failure epilogue stop,
      Layout (Encodes image.bytes) source profile offsets failure epilogue stop := by
  obtain ⟨hprofile, entry, a, boundaries, map, hsource, hbytes⟩ := translateProgram_passes h
  have hfits : FitsProfile source profile := fun hi => validateProfile_ok hprofile hi
  -- the cells of the prologue, of the source, of the failure block and of the epilogue
  obtain ⟨pro, hpro, cpro⟩ := lowered_prologue (a := .new) profile
  obtain ⟨blocks, csource, hblocks, hmap⟩ := emitSource_coded
    (fun hi => by simpa using hwf.statement hi) hfits hsource
  obtain ⟨fail, hfail, cfail⟩ := lowered_failure (a := a)
  obtain ⟨epi, hepi, cepi⟩ := lowered_epilogue (a := a.emitZeroReturn)
  have hall := hpro.trans (hblocks.trans (hfail.trans hepi))
  rw [hall.patches, hall.bytes] at hbytes
  obtain ⟨bs, hbs, hfilled⟩ := applyPatches_filled [] hbytes
  rw [List.length_nil] at hfilled
  have hstart : (new.emitPrologue profile).bytes.length = 0 + (blank pro).length := by
    rw [hpro.bytes]
    simp [new]
  have hstop : a.bytes.length = 0 + (blank pro).length + (blank blocks.flatten).length := by
    rw [hblocks.bytes, List.length_append, hstart]
  have hepilogue : a.emitZeroReturn.bytes.length = a.bytes.length + (blank fail).length := by
    rw [hfail.bytes, List.length_append]
  -- their displacements are resolved, so each part is a block
  obtain ⟨bpro, fpro⟩ := block_of_filled image.bytes cpro hfilled (by simp [hbs])
  obtain ⟨hlen, hfirst, ffail, bsource⟩ := blocks_of_filled csource fpro hstop
  obtain ⟨bfail, fepi⟩ := block_of_filled _ cfail ffail rfl
  rw [← hepilogue] at bfail fepi
  rw [← List.append_nil epi] at fepi
  obtain ⟨bepi, -⟩ := block_of_filled _ cepi fepi rfl
  have hoffsets : map.map InstructionMap.offset = starts (0 + (blank pro).length) blocks := by
    rw [hmap, hstart]
    rfl
  have hD : ∀ p o q, NativeOp.SignSafe o → ReadsLong image.bytes p o q →
      Encodes image.bytes p o q := fun p o q ho hr => decodeOperation_faithful hr.1 hr.2 ho
  rw [hoffsets] at bpro bsource bfail bepi
  refine ⟨hfits, starts (0 + (blank pro).length) blocks, a.bytes.length,
    a.emitZeroReturn.bytes.length, _, hlen, ?_, ?_, bfail.imp signSafe_failure hD,
    bepi.imp signSafe_epilogue hD⟩
  · rw [hfirst]
    exact bpro.imp (signSafe_prologue profile) hD
  · intro pc i hi
    obtain ⟨position, es, hes, hb⟩ := bsource hi
    rw [Nat.zero_add] at hes
    exact ⟨position, es, hes, hb.imp (signSafe_sourceInstruction hes) hD⟩

end

end KernelAx.Cbpf.Translate

namespace KernelAx.Cbpf

/-- **Translated programs are correct**: on every invocation the emitted bytes return the
interpreter's value, reading and writing only what `Call.Allowed` lists. -/
theorem translate_correct {instructions : List Instruction} {program : Program}
    {profile : InputProfile} {image : Translate.CodeImage}
    (hverify : Program.verify instructions = .ok program)
    (htranslate : program.translate profile = .ok image) (I : Invocation)
    (hprofile : I.profile = profile) :
    ∃ v s, evaluate instructions I.call.input = some v ∧
      X86.Run image.bytes I.call.Allowed I.state s ∧ Returns I v s := by
  subst hprofile
  obtain ⟨hinstructions, hwf⟩ := verify_ok hverify
  subst hinstructions
  obtain ⟨hfit, offsets, failure, epilogue, stop, L⟩ :=
    Translate.translateProgram_layout hwf htranslate
  obtain ⟨v, hv, s, hrun, hs⟩ := L.correct hwf hfit
  exact ⟨v, s, hv, hrun, hs⟩

/-- The epilogue's first `pop` reads the saved `r15`, behind the scratch frame. -/
theorem epilogue_reads_behind_frame :
    (match (Program.mk firstWordSource rfl).translate .packetBytesBigEndian with
      | .ok image =>
        (X86.runFor image.bytes 31 firstWordInvocation.state).map fun (s, t) =>
          (s.ip, decide (⟨.pop, firstWordInvocation.fp, 8⟩ ∈ t))
      | .error _ => none) = some (.outside 0, true) ∧
    ¬ X86.Inside firstWordInvocation.fp 8
      firstWordInvocation.data firstWordInvocation.bytes.length ∧
    ¬ X86.Inside firstWordInvocation.fp 8 (firstWordInvocation.fp - 64) 64 := by
  decide +kernel

theorem translate_correct_firstWord :
    ∃ image s, (Program.mk firstWordSource rfl).translate .packetBytesBigEndian = .ok image ∧
      X86.Run image.bytes firstWordInvocation.call.Allowed firstWordInvocation.state s ∧
      Returns firstWordInvocation 7 s := by
  obtain ⟨image, himage⟩ : ∃ image,
      (Program.mk firstWordSource rfl).translate .packetBytesBigEndian = .ok image := ⟨_, rfl⟩
  have heval : evaluate firstWordSource firstWordInvocation.call.input = some 7 := by decide
  have hverify : Program.verify firstWordSource = .ok ⟨firstWordSource, rfl⟩ := rfl
  obtain ⟨v, s, hv, hrun, hs⟩ := translate_correct hverify himage firstWordInvocation rfl
  rw [heval] at hv
  cases hv
  exact ⟨image, s, himage, hrun, hs⟩

end KernelAx.Cbpf

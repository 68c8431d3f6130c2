import KernelAx.Cbpf.Native

/-!
# Classic BPF — what the restricted decoder gets right

The decoder of the translation validator against the architecture's own decoding.

* `decodeOperation_faithful` — the decoder reports what the bytes encode, with two exceptions:
  the unprefixed `8b 06`, and byte immediates with the top bit set, which the machine
  sign-extends and the decoder does not;
* `shortLoad_misread` — `8b 06` is reported as a load through `r14` and loads through `rsi`.
-/

namespace KernelAx.Cbpf

open X86 (Byte le32)

/-- The immediate of the operations that the machine encodes with a sign-extended byte. -/
def NativeOp.byteImmediate : NativeOp → Option (BitVec 32)
  | .binary .and .word (.register .r14d) (.immediate v) => some v
  | .binary .sub .word (.register .r15d) (.immediate v) => some v
  | .binary .sub .qword (.register .rsp) (.immediate v) => some v
  | .binary .add .qword (.register .rsp) (.immediate v) => some v
  | .compare .word (.register .r13d) (.immediate v) => some v
  | _ => none

/-- Sign extension does not change the byte immediate. -/
def NativeOp.SignSafe (o : NativeOp) : Prop := ∀ v, o.byteImmediate = some v → v.toNat < 128

/-- The bytes `8b 06`. -/
def ShortLoad (bs : List Byte) : Prop := bs.take 2 = [0x8b, 0x06]

theorem branchTarget_eq_relativeTarget (p : Nat) (d : BitVec 32) :
    X86.branchTarget p d = relativeTarget p d := by
  unfold X86.branchTarget relativeTarget
  by_cases h : 0 ≤ d.toInt
  · have h' : 0 ≤ (p : Int) + d.toInt := by omega
    simp only [h, h', if_true, Option.some.injEq]
    omega
  · by_cases h' : d.toInt.natAbs ≤ p
    · have h'' : 0 ≤ (p : Int) + d.toInt := by omega
      simp only [h, h', h'', if_true, if_false, Option.some.injEq]
      omega
    · have h'' : ¬ 0 ≤ (p : Int) + d.toInt := by omega
      simp only [h, h', h'', if_false]

theorem signExtend_of_small {b : Byte} (h : (b.setWidth 32).toNat < 128) :
    (b.setWidth 32).signExtend 64 = b.signExtend 64 := by
  have hm : b.msb = false := by
    rw [BitVec.msb_eq_decide]
    simp only [BitVec.toNat_setWidth] at h
    have := b.isLt
    simp
    omega
  have hm' : (b.setWidth 32).msb = false := by
    rw [BitVec.msb_eq_decide]
    simp
    omega
  rw [BitVec.signExtend_eq_setWidth_of_msb_false hm, BitVec.signExtend_eq_setWidth_of_msb_false hm']
  simp

variable {p q : Nat} {bs : List Byte} {o : NativeOp}

theorem withImm32_some {f : BitVec 32 → NativeOp} (h : withImm32 p bs f = some (o, q)) :
    ∃ b₀ b₁ b₂ b₃ rest, bs = b₀ :: b₁ :: b₂ :: b₃ :: rest ∧ o = f (le32 b₀ b₁ b₂ b₃) ∧
      q = p + 4 := by
  unfold withImm32 at h
  split at h <;> cases h
  exact ⟨_, _, _, _, _, rfl, rfl, rfl⟩

theorem withByte_some {f : Byte → NativeOp} (h : withByte p bs f = some (o, q)) :
    ∃ b rest, bs = b :: rest ∧ o = f b ∧ q = p + 1 := by
  unfold withByte at h
  split at h <;> cases h
  exact ⟨_, _, rfl, rfl, rfl⟩

theorem withTarget_some {f : Nat → NativeOp} (h : withTarget p bs f = some (o, q)) :
    ∃ b₀ b₁ b₂ b₃ rest t, bs = b₀ :: b₁ :: b₂ :: b₃ :: rest ∧
      X86.branchTarget (p + 4) (le32 b₀ b₁ b₂ b₃) = some t ∧ o = f t ∧ q = p + 4 := by
  unfold withTarget at h
  split at h
  · rw [← branchTarget_eq_relativeTarget] at h
    obtain ⟨t, ht, he⟩ := Option.map_eq_some_iff.mp h
    cases he
    exact ⟨_, _, _, _, _, t, rfl, ht, rfl, rfl⟩
  · cases h

/-- The instruction an operation names, decoded behind the REX byte (if any). -/
def NamedBy (o : NativeOp) (r : Option (X86.Instr × Nat)) (q : Nat) : Prop :=
  ∃ i, o.meaning = some i ∧ r = some (i, q)

theorem decodeRexB_faithful (h : decodeRexB p bs = some (o, q)) (hs : o.SignSafe) :
    NamedBy o (X86.decodeOp 32 ⟨false, false, true⟩ p bs) q := by
  unfold decodeRexB at h
  cases bs with
  | nil => cases h
  | cons op bs =>
    dsimp only at h
    split at h
    -- the forms without an immediate
    all_goals try (cases h; exact ⟨_, rfl, rfl⟩)
    all_goals try (split at h <;> cases h <;> exact ⟨_, rfl, rfl⟩)
    · -- `81 c6 id`
      split at h
      · obtain ⟨b₀, b₁, b₂, b₃, rest, rfl, rfl, rfl⟩ := withImm32_some h
        exact ⟨_, rfl, rfl⟩
      · cases h
    · -- `83 /n ib`
      split at h
      · obtain ⟨b, rest, rfl, rfl, rfl⟩ := withByte_some h
        refine ⟨_, rfl, ?_⟩
        rw [Operand.toSrc, signExtend_of_small (hs _ rfl)]
        rfl
      · obtain ⟨b, rest, rfl, rfl, rfl⟩ := withByte_some h
        refine ⟨_, rfl, ?_⟩
        rw [Operand.toSrc, signExtend_of_small (hs _ rfl)]
        rfl
      · obtain ⟨b, rest, rfl, rfl, rfl⟩ := withByte_some h
        refine ⟨_, rfl, ?_⟩
        rw [Operand.toSrc, signExtend_of_small (hs _ rfl)]
        rfl
      · cases h
    · -- `be id`
      obtain ⟨b₀, b₁, b₂, b₃, rest, rfl, rfl, rfl⟩ := withImm32_some h
      exact ⟨_, rfl, rfl⟩
    · cases h

theorem decodeRexR_faithful (h : decodeRexR p bs = some (o, q)) :
    NamedBy o (X86.decodeOp 32 ⟨false, true, false⟩ p bs) q := by
  unfold decodeRexR at h
  split at h
  · obtain ⟨b, rest, rfl, rfl, rfl⟩ := withByte_some h
    exact ⟨_, rfl, rfl⟩
  all_goals cases h
  all_goals exact ⟨_, rfl, rfl⟩

theorem decodeRexW_faithful (h : decodeRexW p bs = some (o, q)) (hs : o.SignSafe) :
    NamedBy o (X86.decodeOp 64 ⟨true, false, false⟩ p bs) q := by
  unfold decodeRexW at h
  split at h
  · obtain ⟨b, rest, rfl, rfl, rfl⟩ := withByte_some h
    refine ⟨_, rfl, ?_⟩
    rw [Operand.toSrc, signExtend_of_small (hs _ rfl)]
    rfl
  · obtain ⟨b, rest, rfl, rfl, rfl⟩ := withByte_some h
    refine ⟨_, rfl, ?_⟩
    rw [Operand.toSrc, signExtend_of_small (hs _ rfl)]
    rfl
  · cases h
    exact ⟨_, rfl, rfl⟩
  · cases h

theorem decode0F_faithful (h : decode0F (p + 1) bs = some (o, q)) :
    NamedBy o (X86.decodeOp 32 .none p (0x0f :: bs)) q := by
  unfold decode0F at h
  cases bs with
  | nil => cases h
  | cons op bs =>
    dsimp only at h
    split at h
    all_goals try (cases h; done)
    all_goals try (cases h; exact ⟨_, rfl, rfl⟩)
    all_goals try (split at h <;> cases h <;> exact ⟨_, rfl, rfl⟩)
    -- the conditional branches
    all_goals
      obtain ⟨b₀, b₁, b₂, b₃, rest, t, rfl, ht, rfl, rfl⟩ := withTarget_some h
      refine ⟨_, rfl, ?_⟩
      change (X86.branchTarget (p + 1 + 1 + 4) (le32 b₀ b₁ b₂ b₃)).bind _ = _
      rw [ht]
      rfl

theorem decodeMoveRegisterOrScratch_faithful
    (h : decodeMoveRegisterOrScratch (p + 1) bs = some (o, q)) :
    NamedBy o (X86.decode p (0x89 :: bs)) q := by
  unfold decodeMoveRegisterOrScratch at h
  split at h
  all_goals try (cases h; done)
  all_goals try (cases h; exact ⟨_, rfl, rfl⟩)
  all_goals
    obtain ⟨b, rest, rfl, rfl, rfl⟩ := withByte_some h
    exact ⟨_, rfl, rfl⟩

theorem decodeBinaryRegister_some {kind : BinaryKind}
    (h : decodeBinaryRegister p bs kind = some (o, q)) :
    ∃ rest, bs = 0xc8 :: rest ∧ o = binaryReg kind .word .eax .ecx ∧ q = p + 1 := by
  unfold decodeBinaryRegister at h
  split at h <;> cases h
  exact ⟨_, rfl, rfl, rfl⟩

/-- **The decoder reports what the bytes encode**, apart from the unprefixed `8b 06` and byte
immediates with the top bit set. -/
theorem decodeOperation_faithful (h : decodeOperation p bs = some (o, q)) (hload : ¬ ShortLoad bs)
    (hs : o.SignSafe) : NamedBy o (X86.decode p bs) q := by
  unfold decodeOperation at h
  cases bs with
  | nil => cases h
  | cons first bs =>
    dsimp only at h
    split at h
    -- the forms of one or two fixed bytes
    all_goals try (cases h; done)
    all_goals try (cases h; exact ⟨_, rfl, rfl⟩)
    all_goals try (split at h <;> cases h <;> exact ⟨_, rfl, rfl⟩)
    -- the forms on `eax` with a 32-bit immediate, and the register forms on `eax`, `ecx`
    all_goals try
      (obtain ⟨b₀, b₁, b₂, b₃, rest, rfl, rfl, rfl⟩ := withImm32_some h; exact ⟨_, rfl, rfl⟩)
    all_goals try
      (obtain ⟨rest, rfl, rfl, rfl⟩ := decodeBinaryRegister_some h; exact ⟨_, rfl, rfl⟩)
    · exact decodeRexB_faithful h hs
    · exact decodeRexR_faithful h
    · unfold decodeRexRB at h
      split at h <;> cases h <;> exact ⟨_, rfl, rfl⟩
    · exact decodeRexW_faithful h hs
    · unfold decodeRexWB at h
      split at h <;> cases h
      exact ⟨_, rfl, rfl⟩
    · unfold decodeRexWR at h
      split at h <;> cases h
      exact ⟨_, rfl, rfl⟩
    · unfold decodeRexWRB at h
      split at h <;> cases h
      exact ⟨_, rfl, rfl⟩
    · exact decode0F_faithful h
    · -- `69 c0 id`
      split at h
      · obtain ⟨b₀, b₁, b₂, b₃, rest, rfl, rfl, rfl⟩ := withImm32_some h
        exact ⟨_, rfl, rfl⟩
      · cases h
    · exact decodeMoveRegisterOrScratch_faithful h
    · -- `8b /r`: the first arm is the one the hypothesis excludes
      split at h
      · exact absurd rfl hload
      all_goals try cases h
      all_goals
        obtain ⟨b, rest, rfl, rfl, rfl⟩ := withByte_some h
        exact ⟨_, rfl, rfl⟩
    · -- `c1 /n ib`
      split at h
      all_goals try cases h
      all_goals
        obtain ⟨b, rest, rfl, rfl, rfl⟩ := withByte_some h
        exact ⟨_, rfl, rfl⟩
    · -- `e9 cd`
      obtain ⟨b₀, b₁, b₂, b₃, rest, t, rfl, ht, rfl, rfl⟩ := withTarget_some h
      refine ⟨_, rfl, ?_⟩
      change (X86.branchTarget (p + 1 + 4) (le32 b₀ b₁ b₂ b₃)).bind _ = _
      rw [ht]
      rfl

/-- The exception: `8b 06` is reported as a load through `r14`, and encodes one through `rsi`. -/
theorem shortLoad_misread (p : Nat) (h : ShortLoad bs) :
    decodeOperation p bs = some (.load .word .eax .r14 0, p + 2) ∧
    X86.decode p bs = some (.mov 32 (.reg .rax) (.rm (.mem .rsi 0)), p + 2) := by
  match bs, h with
  | b₀ :: b₁ :: rest, h =>
    simp only [ShortLoad, List.take_succ_cons, List.take_zero, List.cons.injEq, and_true] at h
    obtain ⟨rfl, rfl⟩ := h
    exact ⟨rfl, rfl⟩

end KernelAx.Cbpf

import KernelAx.Cbpf.Frame

/-!
# Classic BPF — the effect of each block

Symbolic execution of the pieces of native code that the lowering is made of: the bounds checks,
the address computation, the guarded load with its byte-order transformation, arithmetic,
comparisons. Each piece is described by the state it lands in, relative to the state it started
from.
-/

namespace KernelAx.Cbpf

open X86 State

variable {image : List Byte} {E : Call} {res : Target → Option Nat} {s : State} {p q r f : Nat}
  {Q : State → Prop}

variable {o : NativeOp} {i : Instr} {s₁ : State} {width : LoadWidth} {off : BitVec 32}
  {rs : List Reg}

theorem Encodes.at (h : Encodes image p o q) (hm : o.meaning = some i) : At image p i q := by
  obtain ⟨j, hj, hd⟩ := h
  rw [hm] at hj
  cases hj
  exact hd

theorem leads_op (h : Encodes image p o q) (hp : s.ip = .code p) (he : exec i q s = some s₁)
    (hm : o.meaning = some i) (ha : accesses i s = []) (hl : Leads image E.Allowed s₁ Q) :
    Leads image E.Allowed s Q :=
  .exec (h.at hm) hp he ha hl

theorem leads_mem (h : Encodes image p o q) (hp : s.ip = .code p) (he : exec i q s = some s₁)
    (hm : o.meaning = some i) (ha : ∀ a ∈ accesses i s, E.Allowed a)
    (hl : Leads image E.Allowed s₁ Q) : Leads image E.Allowed s Q :=
  .step hp (h.at hm) he ha hl

theorem leads_jcc {c : Condition} {dest : Nat} {taken : Bool}
    (h : Encodes image p (.conditionalJump c dest) q) (hp : s.ip = .code p)
    (hc : c.toCc.eval s = some taken)
    (hl : Leads image E.Allowed (s.goto (if taken then dest else q)) Q) :
    Leads image E.Allowed s Q := by
  refine leads_op h hp (i := .jcc c.toCc dest) ?_ rfl rfl hl
  simp only [exec, hc, Option.map_some]

/-- Control is at `p` and only working registers have changed. -/
structure Arrives (rs : List Reg) (s : State) (p : Nat) (s' : State) : Prop where
  agrees : Agrees rs s s'
  ip : s'.ip = .code p

/-! ### Bounds checks -/

/-- **The bounds checks** pass exactly when the `width` bytes at the offset in `r14d` are inside
of the packet. -/
theorem leads_bounds (hb : Block (Encodes image) res (validateBounds width) p r)
    (hframe : Frame E s) (hp : s.ip = .code p) (hf : res .failure = some f) :
    Leads image E.Allowed s (Arrives [.r15] s
      (if (s.reg 32 .r14).toNat + width.bytes ≤ E.bytes.length then r else f)) := by
  have hlen := hframe.len_toNat
  have hsmall := E.small
  have hw : (BitVec.ofNat 32 width.bytes).toNat = width.bytes := by cases width <;> rfl
  have hwle : width.bytes ≤ 4 := by cases width <;> decide
  obtain ⟨p₁, h₁, hb⟩ := hb.of_op
  obtain ⟨p₂, h₂, hb⟩ := hb.of_jcc hf
  obtain ⟨p₃, h₃, hb⟩ := hb.of_op
  obtain ⟨p₄, h₄, hb⟩ := hb.of_op
  obtain ⟨p₅, h₅, hb⟩ := hb.of_op
  obtain ⟨p₆, h₆, hb⟩ := hb.of_jcc hf
  obtain rfl := hb.of_nil
  refine leads_op h₁ hp (exec_cmp _ _ 32 .r13 (.imm _)) rfl rfl ?_
  refine leads_jcc h₂ rfl (Cc.eval_cmp rfl rfl).1 ?_
  simp only [hlen, src_imm, setWidth_signExtend_32, hw]
  by_cases hlt : E.bytes.length < width.bytes
  · -- the packet is shorter than the load
    rw [if_neg (show ¬ (s.reg 32 .r14).toNat + width.bytes ≤ E.bytes.length by omega)]
    refine .here ⟨⟨rfl, fun _ _ => rfl⟩, ?_⟩
    simp [hlt]
  · refine leads_op h₃ (by simp [hlt]) (exec_mov _ _ 32 .r15 (.rm (.reg .r13))) rfl rfl ?_
    refine leads_op h₄ rfl (exec_sub _ _ 32 .r15 (.imm _)) rfl rfl ?_
    refine leads_op h₅ rfl (exec_cmp _ _ 32 .r15 (.rm (.reg .r14))) rfl rfl ?_
    refine leads_jcc h₆ rfl (Cc.eval_cmp rfl rfl).1 ?_
    refine .here ⟨⟨rfl, fun r hr => ?_⟩, ?_⟩
    · have : r ≠ .r15 := by simpa using hr
      simp [this]
    · have hsub : (s.reg 32 .r13 - BitVec.ofNat 32 width.bytes).toNat
          = E.bytes.length - width.bytes := by
        rw [BitVec.toNat_sub_of_le (by rw [BitVec.le_def, hlen, hw]; omega), hlen, hw]
      simp only [goto_ip, goto_reg, flags_reg, setReg32_reg32,
        src_imm, src_rm, get_reg, setWidth_signExtend_32, Ip.code.injEq,
        decide_eq_true_eq, setReg_reg_of_ne _ (show Reg.r14 ≠ .r15 by decide), hsub]
      split <;> split <;> omega

theorem leads_addressAdd (hb : Block (Encodes image) res validateAddressAdd p r)
    (hframe : Frame E s) (hp : s.ip = .code p) (hf : res .failure = some f)
    (hoff : s.regs .r14 = off.setWidth 64) (hlt : off.toNat < E.bytes.length) :
    Leads image E.Allowed s (fun s' => Arrives [.r14] s r s' ∧
      s'.regs .r14 = E.data + BitVec.ofNat 64 off.toNat) := by
  obtain ⟨p₁, h₁, hb⟩ := hb.of_op
  obtain ⟨p₂, h₂, hb⟩ := hb.of_jcc hf
  obtain rfl := hb.of_nil
  have hnowrap := E.nowrap
  -- the sum stays below the end of the packet, so it does not carry
  have hcarry : ¬ 2 ^ 64 ≤ (s.reg 64 .r14).toNat + (s.src 64 (.rm (.reg .r12))).toNat := by
    simp only [reg_64, src_rm, get_reg, hoff, hframe.r12, BitVec.toNat_setWidth]
    omega
  refine leads_op h₁ hp (exec_add _ _ 64 .r14 (.rm (.reg .r12))) rfl rfl ?_
  refine leads_jcc h₂ rfl rfl ?_
  refine .here ⟨⟨⟨rfl, fun r hr => ?_⟩, ?_⟩, ?_⟩
  · have : r ≠ .r14 := by simpa using hr
    simp [this]
  · simp only [goto_ip, hcarry, decide_false, Bool.false_eq_true, if_false]
  · simp only [goto_regs, flags_regs, setReg64_regs, reg_64, src_rm, get_reg, hoff, hframe.r12]
    bv_omega

/-! ### Loads -/

theorem toNat_append_byte {n : Nat} (x : BitVec n) (y : Byte) :
    (x ++ y).toNat = x.toNat * 256 + y.toNat := by
  rw [BitVec.toNat_append, ← Nat.shiftLeft_add_eq_or_of_lt y.isLt, Nat.shiftLeft_eq]

theorem byteSwap_le (b₀ b₁ b₂ b₃ : Byte) :
    byteSwap (BitVec.ofNat 32 (leNat [b₀, b₁, b₂, b₃])) = b₀ ++ b₁ ++ b₂ ++ b₃ := by
  have hbyte : ∀ (k : Nat) (b : Byte), leNat [b₀, b₁, b₂, b₃] % 2 ^ 32 / 2 ^ k % 256 = b.toNat →
      (BitVec.ofNat 32 (leNat [b₀, b₁, b₂, b₃])).extractLsb' k 8 = b := by
    intro k b h
    apply BitVec.eq_of_toNat_eq
    rw [BitVec.extractLsb'_toNat, BitVec.toNat_ofNat, Nat.shiftRight_eq_div_pow, h]
  have h₀ := b₀.isLt
  have h₁ := b₁.isLt
  have h₂ := b₂.isLt
  have h₃ := b₃.isLt
  rw [byteSwap, hbyte 0 b₀, hbyte 8 b₁, hbyte 16 b₂, hbyte 24 b₃]
  all_goals
    simp only [leNat]
    omega

theorem ofNat_le32 (b₀ b₁ b₂ b₃ : Byte) :
    BitVec.ofNat 32 (leNat [b₀, b₁, b₂, b₃]) = b₃ ++ b₂ ++ b₁ ++ b₀ := by
  have h₀ := b₀.isLt
  have h₁ := b₁.isLt
  have h₂ := b₂.isLt
  have h₃ := b₃.isLt
  apply BitVec.eq_of_toNat_eq
  simp only [toNat_append_byte, leNat, BitVec.toNat_ofNat]
  omega

theorem rotate_le (b₀ b₁ : Byte) : (BitVec.ofNat 16 (leNat [b₀, b₁])).rotateLeft 8 = b₀ ++ b₁ := by
  have h₀ := b₀.isLt
  have h₁ := b₁.isLt
  have hle : BitVec.ofNat 16 (leNat [b₀, b₁]) = b₁ ++ b₀ := by
    apply BitVec.eq_of_toNat_eq
    simp only [toNat_append_byte, leNat, BitVec.toNat_ofNat]
    omega
  rw [hle]
  apply BitVec.eq_of_getLsbD_eq
  intro i hi
  simp only [BitVec.getLsbD_rotateLeft, BitVec.getLsbD_append]
  by_cases h : i < 8
  · simp [h, show ¬ (16 - 8 + i < 8) by omega]
  · simp [h, hi, show i - 8 < 8 by omega]

/-- The value of packet bytes in the byte order of a profile. -/
def orderedBytes (profile : InputProfile) : LoadWidth → List Byte → Option (BitVec 32) :=
  match profile with
  | .nativeAlignedWords => fromNeBytes
  | _ => fromBeBytes

theorem exists_four {bs : List Byte} (h : bs.length = 4) :
    ∃ b₀ b₁ b₂ b₃, bs = [b₀, b₁, b₂, b₃] := by
  match bs, h with
  | [b₀, b₁, b₂, b₃], _ => exact ⟨b₀, b₁, b₂, b₃, rfl⟩

theorem exec_load (s : State) (q n : Nat) (d b : Reg) (disp : BitVec 64) :
    exec (.mov n (.reg d) (.rm (.mem b disp))) q s =
      some ((s.setReg n d (BitVec.ofNat n (readLE s.mem (s.regs b + disp) (n / 8)))).goto q) := rfl

theorem exec_movzx (s : State) (q n : Nat) (d b : Reg) (disp : BitVec 64) :
    exec (.movzx n d (.mem b disp)) q s =
      some ((s.setReg 32 d ((BitVec.ofNat n (readLE s.mem (s.regs b + disp) (n / 8))).setWidth
        32)).goto q) := rfl

/-- **A load behind the checks** leaves in `eax` the packet bytes in the profile's order. -/
theorem leads_guardedLoad {off : Nat}
    (hb : Block (Encodes image) res (validateGuardedLoad width E.profile) p r)
    (hframe : Frame E s) (hp : s.ip = .code p) (hr14 : s.regs .r14 = E.data + BitVec.ofNat 64 off)
    (hin : off + width.bytes ≤ E.bytes.length)
    (hnative : E.profile = .nativeAlignedWords → width = .word) :
    Leads image E.Allowed s (fun s' => Arrives [.rax] s r s' ∧
      orderedBytes E.profile width ((E.bytes.drop off).take width.bytes)
        = some (s'.reg 32 .rax)) := by
  have hsmall := E.small
  have haddr : s.regs .r14 + (0 : BitVec 8).signExtend 64 = E.data + BitVec.ofNat 64 off := by
    rw [show (0 : BitVec 8).signExtend 64 = 0#64 from rfl, BitVec.add_zero, hr14]
  have hread := hframe.readLE_packet hin
  rw [← haddr] at hread
  have hallowed : ∀ a ∈
      [(⟨.load, s.regs .r14 + (0 : BitVec 8).signExtend 64, width.bytes⟩ : Access)],
      E.Allowed a := by
    intro a ha
    obtain rfl := List.mem_singleton.mp ha
    refine .inl ?_
    simp only [Inside, haddr]
    bv_omega
  have hbytes : ((E.bytes.drop off).take width.bytes).length = width.bytes := by simp; omega
  obtain ⟨p₁, h₁, hb⟩ := hb.of_op
  obtain ⟨p₂, h₂, hb⟩ := hb.of_op
  refine leads_op h₁ hp (i := .lfence) rfl rfl rfl ?_
  generalize (E.bytes.drop off).take width.bytes = bs at hread hbytes ⊢
  cases width with
  | byte =>
    obtain ⟨b₀, rfl⟩ := List.length_eq_one_iff.mp hbytes
    have hend : validateEndianTransform .byte E.profile = [] := by cases E.profile <;> rfl
    have hord : orderedBytes E.profile .byte [b₀] = some (b₀.setWidth 32) := by
      cases E.profile <;> rfl
    rw [hend] at hb
    obtain rfl := hb.of_nil
    refine leads_mem h₂ rfl (exec_movzx _ _ 8 .rax .r14 _) rfl hallowed ?_
    refine .here ⟨⟨⟨rfl, fun r hr => ?_⟩, rfl⟩, ?_⟩
    · have : r ≠ .rax := by simpa using hr
      simp [this]
    · have hv : BitVec.ofNat 8 (leNat [b₀]) = b₀ := by simp [leNat]
      rw [hord]
      simp only [goto_reg, setReg32_reg32, goto_mem, goto_regs]
      rw [show readLE s.mem (s.regs .r14 + (0 : BitVec 8).signExtend 64) (8 / 8) = _ from hread, hv]
  | half =>
    obtain ⟨b₀, b₁, rfl⟩ := List.length_eq_two.mp hbytes
    have hprofile : E.profile ≠ .nativeAlignedWords := fun h => by cases hnative h
    have hend : validateEndianTransform .half E.profile =
        [.op (.unary .rotateLeft .half .eax 8)] := by
      revert hprofile
      cases E.profile <;> simp [validateEndianTransform]
    have hord : orderedBytes E.profile .half [b₀, b₁] = some ((b₀ ++ b₁).setWidth 32) := by
      revert hprofile
      cases E.profile <;> simp [orderedBytes, fromBeBytes]
    rw [hend] at hb
    obtain ⟨p₃, h₃, hb⟩ := hb.of_op
    obtain rfl := hb.of_nil
    refine leads_mem h₂ rfl (exec_movzx _ _ 16 .rax .r14 _) rfl hallowed ?_
    refine leads_op h₃ rfl (exec_shift _ _ 16 .rax .rol (some 8)) rfl rfl ?_
    refine .here ⟨⟨⟨rfl, fun r hr => ?_⟩, rfl⟩, ?_⟩
    · have : r ≠ .rax := by simpa using hr
      simp [this]
    · rw [hord, goto_reg, flags_reg,
        setReg16_reg32 (w := BitVec.ofNat 16 (readLE s.mem (s.regs .r14 + _) (16 / 8))) _
          (by rw [goto_reg, setReg32_reg32]; rfl), ← rotate_le]
      simp only [goto_reg, setReg32_reg16, goto_mem, goto_regs]
      rw [show readLE s.mem (s.regs .r14 + (0 : BitVec 8).signExtend 64) (16 / 8) = _ from hread]
      simp [ShiftOp.eval]
  | word =>
    obtain ⟨b₀, b₁, b₂, b₃, rfl⟩ := exists_four hbytes
    by_cases hprofile : E.profile = .nativeAlignedWords
    · have hend : validateEndianTransform .word E.profile = [] := by rw [hprofile]; rfl
      have hord : orderedBytes E.profile .word [b₀, b₁, b₂, b₃] = some (b₃ ++ b₂ ++ b₁ ++ b₀) := by
        rw [hprofile]
        rfl
      rw [hend] at hb
      obtain rfl := hb.of_nil
      refine leads_mem h₂ rfl (exec_load _ _ 32 .rax .r14 _) rfl hallowed ?_
      refine .here ⟨⟨⟨rfl, fun r hr => ?_⟩, rfl⟩, ?_⟩
      · have : r ≠ .rax := by simpa using hr
        simp [this]
      · rw [hord, ← ofNat_le32]
        simp only [goto_reg, setReg32_reg32, goto_mem, goto_regs]
        rw [show readLE s.mem (s.regs .r14 + (0 : BitVec 8).signExtend 64) (32 / 8) = _ from hread]
    · have hend : validateEndianTransform .word E.profile = [.op (.unary .bswap .word .eax 0)] := by
        revert hprofile
        cases E.profile <;> simp [validateEndianTransform]
      have hord : orderedBytes E.profile .word [b₀, b₁, b₂, b₃] = some (b₀ ++ b₁ ++ b₂ ++ b₃) := by
        revert hprofile
        cases E.profile <;> simp [orderedBytes, fromBeBytes]
      rw [hend] at hb
      obtain ⟨p₃, h₃, hb⟩ := hb.of_op
      obtain rfl := hb.of_nil
      refine leads_mem h₂ rfl (exec_load _ _ 32 .rax .r14 _) rfl hallowed ?_
      refine leads_op h₃ rfl (exec_bswap _ _ .rax) rfl rfl ?_
      refine .here ⟨⟨⟨rfl, fun r hr => ?_⟩, rfl⟩, ?_⟩
      · have : r ≠ .rax := by simpa using hr
        simp [this]
      · rw [hord, ← byteSwap_le]
        simp only [goto_reg, setReg32_reg32, goto_mem, goto_regs]
        rw [show readLE s.mem (s.regs .r14 + (0 : BitVec 8).signExtend 64) (32 / 8) = _ from hread]

/-! ### Packet accesses -/

theorem Arrives.mono {rs' : List Reg} {s' : State} (h : Arrives rs s p s') (hsub : rs ⊆ rs') :
    Arrives rs' s p s' :=
  ⟨h.agrees.mono hsub, h.ip⟩

theorem Arrives.trans {s₂ : State} (h : Agrees rs s s₁) (h' : Arrives rs s₁ p s₂) :
    Arrives rs s p s₂ :=
  ⟨h.trans h'.agrees, h'.ip⟩

theorem Frame.of_arrives {s' : State} (h : Frame E s) (ha : Arrives rs s p s') (hsub : rs ⊆ work) :
    Frame E s' :=
  h.of_agrees (ha.agrees.mono hsub)

/-- The run-time alignment check of native words; other loads have none. -/
theorem leads_alignment (hb : Block (Encodes image) res (validateAlignment width E.profile) p r)
    (hp : s.ip = .code p) (hf : res .failure = some f) (hoff : s.reg 32 .r14 = off) :
    Leads image E.Allowed s (Arrives [] s
      (if E.profile = .nativeAlignedWords ∧ width = .word ∧ off.toNat % 4 ≠ 0 then f else r)) := by
  unfold validateAlignment at hb
  split at hb
  · rename_i hnative
    obtain ⟨p₁, h₁, hb⟩ := hb.of_op
    obtain ⟨p₂, h₂, hb⟩ := hb.of_jcc hf
    obtain rfl := hb.of_nil
    have h8 : s.reg 8 .r14 = off.setWidth 8 := by
      rw [← hoff, reg_def, reg_def, BitVec.setWidth_setWidth_of_le _ (by omega)]
    have hmask : (off.setWidth 8 &&& 3#8).toNat = off.toNat % 4 := by
      rw [BitVec.toNat_and, BitVec.toNat_setWidth, show (3#8).toNat = 2 ^ 2 - 1 from rfl,
        Nat.and_two_pow_sub_one_eq_mod]
      omega
    have hlow : (s.reg 8 .r14 &&& s.src 8 (.imm ((3 : BitVec 32).signExtend 64)) == 0)
        = decide (off.toNat % 4 = 0) := by
      rw [h8, show s.src 8 (.imm ((3 : BitVec 32).signExtend 64)) = 3#8 from rfl, beq_eq_decide,
        ← hmask]
      exact decide_eq_decide.mpr ⟨fun h => by rw [h]; rfl, fun h => BitVec.eq_of_toNat_eq h⟩
    refine leads_op h₁ hp (exec_test _ _ 8 .r14 (.imm _)) rfl rfl ?_
    refine leads_jcc h₂ rfl rfl ?_
    refine .here ⟨⟨rfl, fun _ _ => rfl⟩, ?_⟩
    rw [hlow]
    by_cases h : off.toNat % 4 = 0
    · simp [h]
    · simp [h, hnative]
  · rename_i hnone
    obtain rfl := hb.of_nil
    refine .here ⟨.refl _ _, ?_⟩
    rw [if_neg (fun h => hnone ⟨h.1, h.2.1⟩), hp]

/-- Whether a load at `off` passes the checks of the native code. -/
def Call.Admits (E : Call) (off : BitVec 32) (width : LoadWidth) : Prop :=
  off.toNat + width.bytes ≤ E.bytes.length ∧
    ¬ (E.profile = .nativeAlignedWords ∧ width = .word ∧ off.toNat % 4 ≠ 0)

instance (E : Call) (off : BitVec 32) (width : LoadWidth) : Decidable (E.Admits off width) :=
  inferInstanceAs (Decidable (_ ∧ _))

theorem width_pos (width : LoadWidth) : 0 < width.bytes := by cases width <;> decide

/-- The checks and the address computation: control arrives behind them with the address of the
packet bytes in `r14`, or in the failure block. Absolute loads have no alignment check, their
offsets being aligned already. -/
theorem leads_address {align rest : List Expectation}
    (hb : Block (Encodes image) res
      (validateBounds width ++ (align ++ (validateAddressAdd ++ rest))) p r)
    (hframe : Frame E s) (hp : s.ip = .code p) (hf : res .failure = some f)
    (hoff : s.regs .r14 = off.setWidth 64)
    (halign : align = validateAlignment width E.profile ∨
      (align = [] ∧ (E.profile = .nativeAlignedWords → off.toNat % 4 = 0))) :
    ∃ p', Block (Encodes image) res rest p' r ∧
      Leads image E.Allowed s (fun s' =>
        if E.Admits off width then
          Arrives [.r14, .r15] s p' s' ∧ s'.regs .r14 = E.data + BitVec.ofNat 64 off.toNat
        else Arrives [.r14, .r15] s f s') := by
  obtain ⟨p₁, hbounds, hb⟩ := hb.split
  obtain ⟨p₂, halignment, hb⟩ := hb.split
  obtain ⟨p₃, hadd, hrest⟩ := hb.split
  refine ⟨p₃, hrest, ?_⟩
  have hreg : s.reg 32 .r14 = off := by simp [reg_def, hoff]
  refine (leads_bounds hbounds hframe hp hf).trans fun s₁ h₁ => ?_
  rw [hreg] at h₁
  by_cases hin : off.toNat + width.bytes ≤ E.bytes.length
  · rw [if_pos hin] at h₁
    have hframe₁ := hframe.of_arrives h₁ (by simp [work])
    have hreg₁ : s₁.reg 32 .r14 = off := (h₁.agrees.reg 32 (by simp)).trans hreg
    have hoff₁ : s₁.regs .r14 = off.setWidth 64 := (h₁.agrees.regs .r14 (by simp)).trans hoff
    -- where the alignment check goes, if there is one
    have hcheck : Leads image E.Allowed s₁ (Arrives [] s₁
        (if E.profile = .nativeAlignedWords ∧ width = .word ∧ off.toNat % 4 ≠ 0 then f
          else p₂)) := by
      rcases halign with rfl | ⟨rfl, haligned⟩
      · exact leads_alignment halignment h₁.ip hf hreg₁
      · obtain rfl := halignment.of_nil
        refine .here ⟨.refl _ _, ?_⟩
        rw [if_neg (fun h => h.2.2 (haligned h.1)), h₁.ip]
    refine hcheck.trans fun s₂ h₂ => ?_
    by_cases hmis : E.profile = .nativeAlignedWords ∧ width = .word ∧ off.toNat % 4 ≠ 0
    · rw [if_pos hmis] at h₂
      refine .here ?_
      rw [if_neg (fun h => h.2 hmis)]
      exact .trans (h₁.agrees.mono (by simp)) (h₂.mono (by simp))
    · rw [if_neg hmis] at h₂
      have hframe₂ := hframe₁.of_arrives h₂ (by simp [work])
      have hoff₂ : s₂.regs .r14 = off.setWidth 64 := (h₂.agrees.regs .r14 (by simp)).trans hoff₁
      have hlt : off.toNat < E.bytes.length := by
        have := width_pos width
        omega
      refine (leads_addressAdd hadd hframe₂ h₂.ip hf hoff₂ hlt).trans fun s₃ h₃ => .here ?_
      rw [if_pos ⟨hin, hmis⟩]
      refine ⟨.trans (h₁.agrees.mono (by simp)) (.trans (h₂.agrees.mono (by simp)) ?_), h₃.2⟩
      exact h₃.1.mono (by simp)
  · rw [if_neg hin] at h₁
    refine .here ?_
    rw [if_neg (fun h => hin h.1)]
    exact h₁.mono (by simp)

end KernelAx.Cbpf

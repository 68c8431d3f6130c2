import KernelAx.Cbpf.Blocks

/-!
# Classic BPF — the effect of each source instruction

The native block of a source instruction, executed from a state that holds A in `eax` and X in
`ecx`, lands where the interpreter goes, with the interpreter's new values.
-/

namespace KernelAx.Cbpf

open X86

variable {image : List Byte} {E : Call} {res : Target → Option Nat} {s : State} {p q r f : Nat}

/-- Control is at `p` with `a` in `eax` and `x` in `ecx`; only working registers have changed. -/
structure Lands (s : State) (p : Nat) (a x : BitVec 32) (s' : State) : Prop where
  agrees : Agrees work s s'
  ip : s'.ip = .code p
  acc : s'.reg 32 .rax = a
  idx : s'.reg 32 .rcx = x

variable {x : BitVec 32}

theorem Lands.trans {a : BitVec 32} {s₁ s' : State} (h : Agrees work s s₁)
    (hl : Lands s₁ p a x s') : Lands s p a x s' :=
  { hl with agrees := h.trans hl.agrees }

theorem ne_of_not_mem_work {r : Reg} (h : r ∉ work) :
    r ≠ .rax ∧ r ≠ .rcx ∧ r ≠ .rdx ∧ r ≠ .r14 ∧ r ≠ .r15 := by
  simpa [work] using h

/-! ### Loads -/

theorem Call.input_load (E : Call) (off : BitVec 32) (width : LoadWidth) :
    E.input.load off width =
      if E.Admits off width then
        orderedBytes E.profile width ((E.bytes.drop off.toNat).take width.bytes)
      else none := by
  have hrange : ∀ f : List Byte → Option (BitVec 32),
      (getRange E.bytes off.toNat (off.toNat + width.bytes)).bind f =
        if off.toNat + width.bytes ≤ E.bytes.length then
          f ((E.bytes.drop off.toNat).take width.bytes)
        else none := by
    intro f
    unfold getRange
    split
    · simp
    · rfl
  have hprofile : ∀ profile, E.profile = profile → E.input.load off width =
      if profile = .nativeAlignedWords ∧ width = .word ∧ off.toNat % 4 ≠ 0 then none
      else if off.toNat + width.bytes ≤ E.bytes.length then
        orderedBytes profile width ((E.bytes.drop off.toNat).take width.bytes)
      else none := by
    intro profile h
    unfold Call.input
    rw [h]
    cases profile with
    | packetBytesBigEndian => simpa [profileInput, bytesInput, orderedBytes] using hrange _
    | packetContextBigEndian =>
      simpa [profileInput, packetInput, bytesInput, orderedBytes] using hrange _
    | nativeAlignedWords => simp [profileInput, nativeWordInput, orderedBytes, hrange]
  rw [hprofile _ rfl]
  by_cases hmis : E.profile = .nativeAlignedWords ∧ width = .word ∧ off.toNat % 4 ≠ 0
  · rw [if_pos hmis, if_neg (fun h => h.2 hmis)]
  · rw [if_neg hmis]
    by_cases hin : off.toNat + width.bytes ≤ E.bytes.length
    · rw [if_pos hin, if_pos ⟨hin, hmis⟩]
    · rw [if_neg hin, if_neg (fun h => hin h.1)]

/-- **A packet load** at the offset in `r14` leaves the input's value in `eax`, or fails when the
input has none. -/
theorem leads_packetLoad {width : LoadWidth} {off : BitVec 32} (align : List Expectation)
    (hb : Block (Encodes image) res
      (validateBounds width ++ (align ++ (validateAddressAdd ++
        validateGuardedLoad width E.profile))) p r)
    (hframe : Frame E s) (hp : s.ip = .code p) (hf : res .failure = some f)
    (hoff : s.regs .r14 = off.setWidth 64)
    (halign : align = validateAlignment width E.profile ∨
      (align = [] ∧ (E.profile = .nativeAlignedWords → off.toNat % 4 = 0)))
    (hnative : E.profile = .nativeAlignedWords → width = .word) :
    Leads image E.Allowed s (fun s' =>
      match E.input.load off width with
      | some v => Lands s r v (s.reg 32 .rcx) s'
      | none => Arrives work s f s') := by
  obtain ⟨p', hload, haddr⟩ := leads_address hb hframe hp hf hoff halign
  refine haddr.trans fun s₁ h₁ => ?_
  rw [E.input_load]
  by_cases hadm : E.Admits off width
  · rw [if_pos hadm] at h₁ ⊢
    obtain ⟨h₁, hr14⟩ := h₁
    have hframe₁ := hframe.of_arrives h₁ (by simp [work])
    refine (leads_guardedLoad hload hframe₁ h₁.ip hr14 hadm.1 hnative).trans fun s₂ h₂ => .here ?_
    obtain ⟨h₂, hv⟩ := h₂
    rw [hv]
    refine ⟨(h₁.agrees.mono (by simp [work])).trans (h₂.agrees.mono (by simp [work])), h₂.ip,
      rfl, ?_⟩
    exact (h₂.agrees.reg 32 (by simp)).trans (h₁.agrees.reg 32 (by simp))
  · rw [if_neg hadm] at h₁ ⊢
    exact .here (h₁.mono (by simp [work]))

theorem leads_packetLoadToX (off : BitVec 32)
    (hb : Block (Encodes image) res
      (validateBounds .byte ++ ([] ++ (validateAddressAdd ++
        [.op .speculationBarrier, .op (.load .byte .ecx .r14 0),
          .op (binaryImm .and .word .ecx 0x0f), .op (.shiftImmediate .left .word .ecx 2)]))) p r)
    (hframe : Frame E s) (hp : s.ip = .code p) (hf : res .failure = some f)
    (hoff : s.regs .r14 = off.setWidth 64) (hnative : E.profile ≠ .nativeAlignedWords) :
    Leads image E.Allowed s (fun s' =>
      match E.input.load off .byte with
      | some v => Lands s r (s.reg 32 .rax) ((v &&& 0x0f) <<< 2) s'
      | none => Arrives work s f s') := by
  obtain ⟨p', hload, haddr⟩ :=
    leads_address hb hframe hp hf hoff (.inr ⟨rfl, fun h => absurd h hnative⟩)
  refine haddr.trans fun s₁ h₁ => ?_
  rw [E.input_load]
  by_cases hadm : E.Admits off .byte
  · rw [if_pos hadm] at h₁ ⊢
    obtain ⟨h₁, hr14⟩ := h₁
    have hframe₁ := hframe.of_arrives h₁ (by simp [work])
    have hread := hframe₁.readLE_packet hadm.1
    have hbytes : ((E.bytes.drop off.toNat).take LoadWidth.byte.bytes).length = 1 := by
      have := hadm.1
      simp only [List.length_take, List.length_drop, LoadWidth.bytes] at *
      omega
    obtain ⟨b₀, hb₀⟩ := List.length_eq_one_iff.mp hbytes
    have hord : orderedBytes E.profile .byte [b₀] = some (b₀.setWidth 32) := by
      cases E.profile <;> rfl
    have haddr : s₁.regs .r14 + (0 : BitVec 8).signExtend 64
        = E.data + BitVec.ofNat 64 off.toNat := by
      rw [show (0 : BitVec 8).signExtend 64 = 0#64 from rfl, BitVec.add_zero, hr14]
    have hval : BitVec.ofNat 8 (readLE s₁.mem (s₁.regs .r14 + (0 : BitVec 8).signExtend 64) (8 / 8))
        = b₀ := by
      rw [haddr, show readLE s₁.mem (E.data + _) (8 / 8) = _ from hread, hb₀]
      simp [leNat]
    rw [hb₀, hord]
    obtain ⟨p₁, h₁', hload⟩ := hload.of_op
    obtain ⟨p₂, h₂, hload⟩ := hload.of_op
    obtain ⟨p₃, h₃, hload⟩ := hload.of_op
    obtain ⟨p₄, h₄, hload⟩ := hload.of_op
    obtain rfl := hload.of_nil
    refine leads_op h₁' h₁.ip (i := .lfence) rfl rfl rfl ?_
    refine leads_mem h₂ rfl (exec_movzx _ _ 8 .rcx .r14 _) rfl ?_ ?_
    · intro a ha
      obtain rfl := List.mem_singleton.mp ha
      refine .inl ?_
      have := hadm.1
      have hsmall := E.small
      simp only [Inside, State.goto_regs, haddr, LoadWidth.bytes] at *
      bv_omega
    refine leads_op h₃ rfl (exec_and _ _ 32 .rcx (.imm _)) rfl rfl ?_
    refine leads_op h₄ rfl (exec_shift _ _ 32 .rcx .shl (some 2)) rfl rfl ?_
    refine .here ⟨⟨h₁.agrees.mem, fun r hr => ?_⟩, rfl, ?_, ?_⟩
    · have hne := ne_of_not_mem_work hr
      have := h₁.agrees.regs r (by simp [hne])
      simpa [hne] using this
    · have := h₁.agrees.reg 32 (r := .rax) (by simp)
      simpa using this
    · simp only [State.goto_reg, State.flags_reg, State.setReg32_reg32, State.src_imm,
        setWidth_signExtend_32, State.goto_mem, State.goto_regs, hval]
      rfl
  · rw [if_neg hadm] at h₁ ⊢
    exact .here (h₁.mono (by simp [work]))

/-! ### Moves -/

variable {o : NativeOp} {k v : BitVec 32} {op : AluOp} {i : Instruction} {l : Locals} {src : Source}

theorem leads_moveAcc (src : Src) (hb : Block (Encodes image) res [.op o] p r)
    (hp : s.ip = .code p) (hx : s.reg 32 .rcx = x)
    (hm : o.meaning = some (.mov 32 (.reg .rax) src)) (hv : s.src 32 src = v)
    (ha : ∀ a ∈ src.access 32 s, E.Allowed a) : Leads image E.Allowed s (Lands s r v x) := by
  subst hv hx
  obtain ⟨p₁, h₁, hb⟩ := hb.of_op
  obtain rfl := hb.of_nil
  refine leads_mem h₁ hp (exec_mov _ _ 32 .rax src) hm (by simpa [accesses, RM.access] using ha)
    (.here ⟨⟨rfl, fun r hr => ?_⟩, rfl, ?_, ?_⟩)
  · simp [ne_of_not_mem_work hr]
  · simp
  · simp

theorem leads_moveIdx (src : Src) {a : BitVec 32} (hb : Block (Encodes image) res [.op o] p r)
    (hp : s.ip = .code p) (hacc : s.reg 32 .rax = a)
    (hm : o.meaning = some (.mov 32 (.reg .rcx) src)) (hv : s.src 32 src = v)
    (ha : ∀ a ∈ src.access 32 s, E.Allowed a) : Leads image E.Allowed s (Lands s r a v) := by
  subst hv hacc
  obtain ⟨p₁, h₁, hb⟩ := hb.of_op
  obtain rfl := hb.of_nil
  refine leads_mem h₁ hp (exec_mov _ _ 32 .rcx src) hm (by simpa [accesses, RM.access] using ha)
    (.here ⟨⟨rfl, fun r hr => ?_⟩, rfl, ?_, ?_⟩)
  · simp [ne_of_not_mem_work hr]
  · simp
  · simp

theorem Frame.scratch_address (h : Frame E s) (hk : k.toNat < scratchWords) :
    s.regs .rbp + (scratchDisplacement k).signExtend 64 = E.slot k.toNat := by
  rw [h.rbp, E.scratch_address hk]

theorem Frame.scratch_src (h : Frame E s) (hk : k.toNat < scratchWords) :
    s.src 32 (.rm (.mem .rbp ((scratchDisplacement k).signExtend 64)))
      = BitVec.ofNat 32 (readLE s.mem (E.slot k.toNat) 4) := by
  simp only [State.src, State.get, h.scratch_address hk]

theorem Frame.scratch_allowed (h : Frame E s) (hk : k.toNat < scratchWords) {kind : AccessKind}
    (hkind : kind = .load ∨ kind = .store) {a : Access}
    (ha : a ∈ RM.access (.mem .rbp ((scratchDisplacement k).signExtend 64)) kind 32 s) :
    E.Allowed a := by
  obtain rfl := List.mem_singleton.mp ha
  have hin := E.slot_inside hk
  rw [← h.scratch_address hk] at hin
  rcases hkind with rfl | rfl
  · exact .inr (.inr hin)
  · exact hin

theorem exec_store (s : State) (q n : Nat) (b d : Reg) (disp : BitVec 64) :
    exec (.mov n (.mem b disp) (.rm (.reg d))) q s =
      some (({ s with
        mem := writeLE s.mem (s.regs b + disp) (n / 8) (s.reg n d).toNat } : State).goto q) := rfl

theorem leads_store {d : Register}
    (hb : Block (Encodes image) res [.op (.mov .word (scratch k) (.register d))] p r)
    (hframe : Frame E s) (hp : s.ip = .code p) (hk : k.toNat < scratchWords) :
    Leads image E.Allowed s (fun s' =>
      s'.regs = s.regs ∧ s'.mem = writeLE s.mem (E.slot k.toNat) 4 (s.reg 32 d.toReg).toNat ∧
      s'.ip = .code r) := by
  obtain ⟨p₁, h₁, hb⟩ := hb.of_op
  obtain rfl := hb.of_nil
  refine leads_mem h₁ hp (exec_store _ _ 32 .rbp d.toReg ((scratchDisplacement k).signExtend 64))
    rfl (fun a ha => hframe.scratch_allowed hk (.inr rfl) ha) (.here ⟨rfl, ?_, rfl⟩)
  rw [← hframe.scratch_address hk]
  rfl

/-! ### Arithmetic -/

theorem leads_setAcc {i : Instr} {w : BitVec 32} {c z : Option Bool}
    (hb : Block (Encodes image) res [.op o] p r) (hp : s.ip = .code p) (hx : s.reg 32 .rcx = x)
    (hm : o.meaning = some i) (he : exec i r s = some (((s.setReg 32 .rax w).flags c z).goto r))
    (ha : accesses i s = []) (hv : w = v) :
    Leads image E.Allowed s (Lands s r v x) := by
  subst hv hx
  obtain ⟨p₁, h₁, hb⟩ := hb.of_op
  obtain rfl := hb.of_nil
  refine leads_op h₁ hp he hm ha (.here ⟨⟨rfl, fun r hr => ?_⟩, rfl, by simp, by simp⟩)
  simp [ne_of_not_mem_work hr]

/-- Division of A by the register `d`, with the remainder moved for a modulus. -/
theorem leads_divide {d : Register} (hop : op = .div ∨ op = .mod) (hd : d = .r14d ∨ d = .ecx)
    (hb : Block (Encodes image) res (.op (binaryXor .edx .edx) ::
      .op (.divide .word (.register d)) :: remainderMove op) p r)
    (hp : s.ip = .code p) (hv : s.reg 32 d.toReg = v) (hne : v ≠ 0) :
    Leads image E.Allowed s (Lands s r
      (if op = .mod then s.reg 32 .rax % v else s.reg 32 .rax / v) (s.reg 32 .rcx)) := by
  have hdne : d.toReg ≠ .rdx ∧ d.toReg ≠ .rax := by rcases hd with rfl | rfl <;> decide
  obtain ⟨p₁, h₁, hb⟩ := hb.of_op
  obtain ⟨p₂, h₂, hb⟩ := hb.of_op
  refine leads_op h₁ hp (exec_xor _ _ 32 .rdx (.rm (.reg .rdx))) rfl rfl ?_
  refine leads_op h₂ rfl (exec_div _ _ d.toReg ?_ ?_) rfl rfl ?_
  · simp
  · simpa [hdne, hv] using hne
  rcases hop with rfl | rfl
  on_goal 2 =>
    obtain ⟨p₃, h₃, hb⟩ := hb.of_op
    refine leads_op h₃ rfl (exec_mov _ _ 32 .rax (.rm (.reg .rdx))) rfl rfl ?_
  all_goals
    obtain rfl := hb.of_nil
    refine .here ⟨⟨rfl, fun r hr => ?_⟩, rfl, ?_, ?_⟩
    · simp [ne_of_not_mem_work hr]
    · simp [hdne, hv]
    · simp

/-- The shift by X: `cl` is borrowed for the count and restored. -/
theorem leads_shiftX {kind : ShiftKind}
    (hb : Block (Encodes image) res
      [.op (movReg .word .r14d .ecx), .op (binaryImm .and .word .r14d 0x1f),
        .op (movReg .word .r15d .ecx), .op (movReg .word .ecx .r14d),
        .op (.shiftRegister kind .word .eax), .op (movReg .word .ecx .r15d)] p r)
    (hp : s.ip = .code p) (hx : s.reg 32 .rcx = x) :
    Leads image E.Allowed s
      (Lands s r (kind.toOp.eval (s.reg 32 .rax) ((x &&& 31).toNat % 32)) x) := by
  obtain ⟨p₁, h₁, hb⟩ := hb.of_op
  obtain ⟨p₂, h₂, hb⟩ := hb.of_op
  obtain ⟨p₃, h₃, hb⟩ := hb.of_op
  obtain ⟨p₄, h₄, hb⟩ := hb.of_op
  obtain ⟨p₅, h₅, hb⟩ := hb.of_op
  obtain ⟨p₆, h₆, hb⟩ := hb.of_op
  obtain rfl := hb.of_nil
  have hcount : (x.toNat % 256 &&& 31) % 32 = (x.toNat &&& 31) % 32 := by
    rw [show 31 = 2 ^ 5 - 1 from rfl, Nat.and_two_pow_sub_one_eq_mod,
      Nat.and_two_pow_sub_one_eq_mod]
    omega
  refine leads_op h₁ hp (exec_mov _ _ 32 .r14 (.rm (.reg .rcx))) rfl rfl ?_
  refine leads_op h₂ rfl (exec_and _ _ 32 .r14 (.imm _)) rfl rfl ?_
  refine leads_op h₃ rfl (exec_mov _ _ 32 .r15 (.rm (.reg .rcx))) rfl rfl ?_
  refine leads_op h₄ rfl (exec_mov _ _ 32 .rcx (.rm (.reg .r14))) rfl rfl ?_
  refine leads_op h₅ rfl (exec_shift _ _ 32 .rax kind.toOp none) rfl rfl ?_
  refine leads_op h₆ rfl (exec_mov _ _ 32 .rcx (.rm (.reg .r15))) rfl rfl ?_
  refine .here ⟨⟨rfl, fun r hr => ?_⟩, rfl, ?_, ?_⟩
  · simp [ne_of_not_mem_work hr]
  · simp [hx, hcount]
  · simp [hx]

theorem evaluateAlu_quotient (src : Source) (hop : op = .div ∨ op = .mod)
    (hne : (match src with | .k => i.k | .x => l.index) ≠ 0) :
    evaluateAlu op src i l = .next { l with
      accumulator := (match src with
        | .k => if op = .mod then l.accumulator % i.k else l.accumulator / i.k
        | .x => if op = .mod then l.accumulator % l.index else l.accumulator / l.index)
      pc := l.pc + 1 } := by
  cases src <;> rcases hop with rfl | rfl <;> exact if_neg hne

theorem leads_quotient (hop : op = .div ∨ op = .mod)
    (hb : Block (Encodes image) res (validateAlu op src i.k) p r) (hp : s.ip = .code p)
    (hf : res .failure = some f) (ha : s.reg 32 .rax = l.accumulator)
    (hx : s.reg 32 .rcx = l.index) (hk : src = .k → i.k ≠ 0) :
    match evaluateAlu op src i l with
    | .next l' => Leads image E.Allowed s (Lands s r l'.accumulator l.index) ∧
        l' = { l with accumulator := l'.accumulator, pc := l.pc + 1 }
    | .return v => Leads image E.Allowed s (Arrives work s f) ∧ v = 0
    | .panic => False := by
  cases src with
  | k =>
    have hne := hk rfl
    rw [evaluateAlu_quotient .k hop hne]
    have hb' : Block (Encodes image) res (.op (movImm .r14d i.k) :: .op (binaryXor .edx .edx) ::
        .op (.divide .word (.register .r14d)) :: remainderMove op) p r := by
      rcases hop with rfl | rfl <;> exact hb
    obtain ⟨p₁, h₁, hb'⟩ := hb'.of_op
    refine ⟨leads_op h₁ hp (exec_mov _ _ 32 .r14 (.imm _)) rfl rfl ?_, rfl⟩
    refine (leads_divide hop (.inl rfl) hb' rfl (v := i.k) ?_ hne).trans fun s₂ h₂ => .here ?_
    · simp [Register.toReg]
    · refine ⟨?_, h₂.ip, ?_, ?_⟩
      · refine Agrees.trans ?_ h₂.agrees
        exact ⟨rfl, fun r hr => by simp [ne_of_not_mem_work hr]⟩
      · simpa [ha] using h₂.acc
      · simpa [hx] using h₂.idx
  | x =>
    have hb' : Block (Encodes image) res (.op (.test .word (.register .ecx) (.register .ecx)) ::
        .jcc .equal .failure :: .op (binaryXor .edx .edx) ::
        .op (.divide .word (.register .ecx)) :: remainderMove op) p r := by
      rcases hop with rfl | rfl <;> exact hb
    obtain ⟨p₁, h₁, hb'⟩ := hb'.of_op
    obtain ⟨p₂, h₂, hb'⟩ := hb'.of_jcc hf
    have hflag : (s.reg 32 .rcx &&& s.src 32 (.rm (.reg .rcx)) == 0) = decide (l.index = 0) := by
      simp [hx, beq_eq_decide]
    by_cases hzero : l.index = 0
    · have : evaluateAlu op .x i l = .return 0 := by
        rcases hop with rfl | rfl <;> simp only [evaluateAlu, if_pos hzero]
      rw [this]
      refine ⟨leads_op h₁ hp (exec_test _ _ 32 .rcx (.rm (.reg .rcx))) rfl rfl ?_, rfl⟩
      refine leads_jcc h₂ rfl rfl (.here ⟨⟨rfl, fun _ _ => rfl⟩, ?_⟩)
      rw [State.goto_ip, hflag, hzero]
      rfl
    · rw [evaluateAlu_quotient .x hop hzero]
      refine ⟨leads_op h₁ hp (exec_test _ _ 32 .rcx (.rm (.reg .rcx))) rfl rfl ?_, rfl⟩
      refine leads_jcc h₂ rfl rfl ?_
      rw [hflag, decide_eq_false hzero]
      refine Leads.trans (leads_divide hop (.inr rfl) hb' rfl (v := l.index) hx hzero)
        fun s₃ h₃ => .here ⟨?_, h₃.ip, ?_, ?_⟩
      · exact ⟨h₃.agrees.mem, h₃.agrees.regs⟩
      · simpa [ha] using h₃.acc
      · simpa [hx] using h₃.idx

/-- **Arithmetic agrees with the interpreter**: the new value of A, or the failure block when X is
a zero divisor. -/
theorem leads_alu (hb : Block (Encodes image) res (validateAlu op src i.k) p r)
    (hp : s.ip = .code p) (hf : res .failure = some f) (ha : s.reg 32 .rax = l.accumulator)
    (hx : s.reg 32 .rcx = l.index) (hdiv : op = .div ∨ op = .mod → src = .k → i.k ≠ 0)
    (hshift : op = .lsh ∨ op = .rsh → src = .k → i.k.toNat < 32) :
    match evaluateAlu op src i l with
    | .next l' => Leads image E.Allowed s (Lands s r l'.accumulator l.index) ∧
        l' = { l with accumulator := l'.accumulator, pc := l.pc + 1 }
    | .return v => Leads image E.Allowed s (Arrives work s f) ∧ v = 0
    | .panic => False := by
  -- an immediate count below 32 survives its encoding in a byte
  have hcount : op = .lsh ∨ op = .rsh → src = .k → i.k.toNat % 256 % 32 = i.k.toNat % 32 := by
    omega
  cases op with
  | add | sub | mul | or | and | xor =>
    cases src <;> refine ⟨leads_setAcc hb hp hx rfl rfl rfl ?_, rfl⟩
    · rw [← ha]
      conv_rhs => rw [show i.k = s.src 32 (.imm (i.k.signExtend 64)) by simp]
      rfl
    · rw [← ha, ← hx]
      rfl
  | lsh | rsh =>
    cases src with
    | k =>
      refine ⟨leads_setAcc hb hp hx rfl (exec_shift _ _ 32 .rax _ (some _)) rfl ?_, rfl⟩
      simp [ha, shiftKind, ShiftKind.toOp, ShiftOp.eval, wrappingShl, wrappingShr, hcount]
    | x =>
      have h := leads_shiftX (E := E) hb hp rfl
      rw [ha, hx] at h
      exact ⟨h, rfl⟩
  | div => exact leads_quotient (.inl rfl) hb hp hf ha hx (hdiv (.inl rfl))
  | mod => exact leads_quotient (.inr rfl) hb hp hf ha hx (hdiv (.inr rfl))

/-! ### Jumps -/

theorem leads_branch {i : Instr} {c : Condition} {cf zf : Option Bool} {b : Bool} {t₁ t₂ : Target}
    {d₁ d₂ : Nat} (hb : Block (Encodes image) res [.op o, .jcc c t₁, .jump t₂] p r)
    (hp : s.ip = .code p) (h₁ : res t₁ = some d₁) (h₂ : res t₂ = some d₂)
    (hm : o.meaning = some i) (he : ∀ {q}, exec i q s = some ((s.flags cf zf).goto q))
    (ha : accesses i s = []) (hc : c.toCc.eval (s.flags cf zf) = some b) :
    Leads image E.Allowed s (Arrives [] s (if b then d₁ else d₂)) := by
  obtain ⟨p₁, hop, hb⟩ := hb.of_op
  obtain ⟨p₂, hjcc, hb⟩ := hb.of_jcc h₁
  obtain ⟨p₃, hjump, -⟩ := hb.of_jump h₂
  refine leads_op hop hp he hm ha ?_
  refine leads_jcc hjcc rfl hc ?_
  cases b with
  | true => exact .here ⟨⟨rfl, fun _ _ => rfl⟩, rfl⟩
  | false =>
    refine leads_op hjump rfl (i := .jmp d₂) rfl rfl rfl ?_
    exact .here ⟨⟨rfl, fun _ _ => rfl⟩, rfl⟩

/-- **A conditional jump** goes where the interpreter goes. -/
theorem leads_jump {op : JmpOp} (operand : BitVec 32) {t₁ t₂ : Target} {d₁ d₂ : Nat}
    (ho : (match src with | .k => k | .x => s.reg 32 .rcx) = operand)
    (hb : Block (Encodes image) res
      [validateComparison op src k, .jcc (jumpCondition op) t₁, .jump t₂] p r)
    (hp : s.ip = .code p) (h₁ : res t₁ = some d₁) (h₂ : res t₂ = some d₂) :
    Leads image E.Allowed s
      (Arrives [] s (if op.holds (s.reg 32 .rax) operand then d₁ else d₂)) := by
  have htest : ∀ v : BitVec 32, (!(v == 0)) = decide (v ≠ 0) := by
    intro v
    rw [beq_eq_decide, decide_not]
  cases src
  case' k => obtain rfl : s.src 32 (.imm (k.signExtend 64)) = operand := by simpa using ho
  case' x => obtain rfl : s.reg 32 .rcx = operand := ho
  all_goals cases op
  case k.jeq | x.jeq => exact leads_branch hb hp h₁ h₂ rfl rfl rfl (Cc.eval_cmp rfl rfl).2.2.1
  case k.jgt | x.jgt => exact leads_branch hb hp h₁ h₂ rfl rfl rfl (Cc.eval_cmp rfl rfl).2.2.2
  case k.jge | x.jge => exact leads_branch hb hp h₁ h₂ rfl rfl rfl (Cc.eval_cmp rfl rfl).2.1
  case k.jset | x.jset =>
    exact leads_branch hb hp h₁ h₂ rfl rfl rfl (congrArg some (htest _))

end KernelAx.Cbpf

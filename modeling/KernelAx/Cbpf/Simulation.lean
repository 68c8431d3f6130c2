import KernelAx.Cbpf.Lowering

/-!
# Classic BPF — native code simulates the interpreter

`Sim` relates the interpreter's locals to a machine state: A and X are in `eax` and `ecx`, the
scratch words that are initialized on every path are in the frame, control is at the native
offset of the program counter. Native code with a layout follows every iteration of the
interpreter.
-/

namespace KernelAx.Cbpf

open X86

/-- The machine is where the interpreter is; `m` are the scratch words to agree on. -/
structure Sim (E : Call) (offsets : List Nat) (failure : Nat) (m : BitVec 16) (l : Locals)
    (s : State) : Prop where
  frame : Frame E s
  ip : s.ip = .code (nativeOffset offsets failure l.pc)
  acc : s.reg 32 .rax = l.accumulator
  idx : s.reg 32 .rcx = l.index
  scratch : ∀ j < scratchWords, m.getLsbD j = true →
    readLE s.mem (E.slot j) 4 = (l.scratch j).toNat

/-- Control is at the epilogue with the returned value in `eax`. -/
structure AtEpilogue (E : Call) (epilogue : Nat) (v : BitVec 32) (s : State) : Prop where
  frame : Frame E s
  ip : s.ip = .code epilogue
  value : s.reg 32 .rax = v

/-- The machine follows what an iteration of the interpreter does. -/
def Follows (image : List Byte) (E : Call) (offsets : List Nat) (failure epilogue : Nat)
    (m : BitVec 16) (s : State) : Iteration → Prop
  | .next l' => Leads image E.Allowed s (Sim E offsets failure m l')
  | .return v => Leads image E.Allowed s (AtEpilogue E epilogue v)
  | .panic => False

section

variable {image : List Byte} {E : Call} {is : List Instruction} {offsets : List Nat}
  {failure epilogue stop : Nat} {m : BitVec 16} {l : Locals} {s s' : State}

theorem Sim.mono {m' : BitVec 16} (h : Sim E offsets failure m l s) (hsub : ScratchSubset m' m) :
    Sim E offsets failure m' l s :=
  { h with scratch := fun j hj hm => h.scratch j hj (hsub j hm) }

theorem Sim.lands {a x : BitVec 32} (h : Sim E offsets failure m l s)
    (hl : Lands s (nativeOffset offsets failure (l.pc + 1)) a x s') :
    Sim E offsets failure m { l with accumulator := a, index := x, pc := l.pc + 1 } s' where
  frame := h.frame.of_agrees hl.agrees
  __ := hl
  scratch := fun j hj hm => by
    rw [hl.agrees.mem]
    exact h.scratch j hj hm

theorem Follows.lands {a x : BitVec 32} (h : Sim E offsets failure m l s)
    (hl : Leads image E.Allowed s (Lands s (nativeOffset offsets failure (l.pc + 1)) a x)) :
    Follows image E offsets failure epilogue m s
      (.next { l with accumulator := a, index := x, pc := l.pc + 1 }) :=
  hl.trans fun _ h' => .here (h.lands h')

theorem Sim.jumps {pc : Nat} (h : Sim E offsets failure m l s)
    (ha : Arrives [] s (nativeOffset offsets failure pc) s') :
    Sim E offsets failure m { l with pc := pc } s' where
  frame := h.frame.of_arrives ha (by simp)
  ip := ha.ip
  acc := (ha.agrees.reg 32 (by simp)).trans h.acc
  idx := (ha.agrees.reg 32 (by simp)).trans h.idx
  scratch := fun j hj hm => by
    rw [ha.agrees.mem]
    exact h.scratch j hj hm

/-- **The scratch word written is the word read back**; the others keep their values. -/
theorem Sim.stores {v : BitVec 32} {k : Nat} (h : Sim E offsets failure m l s)
    (hk : k < scratchWords) (hregs : s'.regs = s.regs)
    (hmem : s'.mem = writeLE s.mem (E.slot k) 4 v.toNat)
    (hip : s'.ip = .code (nativeOffset offsets failure (l.pc + 1))) :
    Sim E offsets failure (m ||| 1#16 <<< k)
      { l with scratch := Function.update l.scratch k v, pc := l.pc + 1 } s' where
  frame :=
    { r12 := by rw [hregs]; exact h.frame.r12
      r13 := by rw [State.reg_def, hregs]; exact h.frame.r13
      rdi := by rw [hregs]; exact h.frame.rdi
      rbp := by rw [hregs]; exact h.frame.rbp
      rsp := by rw [hregs]; exact h.frame.rsp
      rbx := by rw [hregs]; exact h.frame.rbx
      mem := fun a ha => by
        have hin := E.slot_inside hk
        rw [hmem, writeLE_of_not_inRange _ _ _ _ _ (by omega), h.frame.mem a ha]
        intro hr
        refine ha ?_
        simp only [InRange, Inside] at *
        bv_omega }
  ip := hip
  acc := by rw [State.reg_def, hregs]; exact h.acc
  idx := by rw [State.reg_def, hregs]; exact h.idx
  scratch := fun j hj hm => by
    show readLE s'.mem (E.slot j) 4 = (Function.update l.scratch k v j).toNat
    rw [hmem]
    by_cases e : j = k
    · subst e
      have := v.isLt
      rw [readLE_writeLE _ _ _ _ (by omega), Function.update_self, Nat.mod_eq_of_lt (by omega)]
    · rw [readLE_writeLE_of_apart _ _ (by omega) (by omega) (E.slot_apart hk hj (Ne.symm e)),
        Function.update_of_ne e]
      refine h.scratch j hj ?_
      rw [BitVec.getLsbD_or, getLsbD_bit] at hm
      simpa [e] using hm

/-! ### Return paths -/

theorem leads_failure (L : Layout (Encodes image) is E.profile offsets failure epilogue stop)
    (h : Frame E s) (ha : Arrives work s failure s') :
    Leads image E.Allowed s' (AtEpilogue E epilogue 0) := by
  obtain ⟨p₁, h₁, hb⟩ := L.failureBlock.of_op
  obtain ⟨p₂, h₂, -⟩ := hb.of_jump rfl
  refine leads_op h₁ ha.ip (exec_xor _ _ 32 .rax (.rm (.reg .rax))) rfl rfl ?_
  refine leads_op h₂ rfl (i := .jmp epilogue) rfl rfl rfl (.here ⟨?_, rfl, by simp⟩)
  refine (h.of_arrives ha (List.Subset.refl _)).of_agrees ⟨rfl, fun r hr => ?_⟩
  simp [ne_of_not_mem_work hr]

theorem Follows.fails (L : Layout (Encodes image) is E.profile offsets failure epilogue stop)
    (h : Frame E s) (ha : Leads image E.Allowed s (Arrives work s failure)) :
    Follows image E offsets failure epilogue m s (.return 0) :=
  ha.trans fun _ h' => leads_failure L h h'

/-- The native offset of a source instruction is where its target resolves to. -/
theorem Layout.offset_source {D : Nat → NativeOp → Nat → Prop}
    (L : Layout D is E.profile offsets failure epilogue stop) {pc : Nat} (hpc : pc < is.length) :
    Target.offset offsets failure epilogue (.source pc) =
      some (nativeOffset offsets failure pc) := by
  have hlt : pc < offsets.length := by rw [L.length]; exact hpc
  simp [Target.offset, nativeOffset, hlt]

/-! ### One source instruction -/

theorem Frame.metadata_src (h : Frame E s) (hprofile : E.profile = .packetContextBigEndian)
    (a : Ancillary) :
    s.src 32 (.rm (.mem .rdi ((BitVec.ofNat 8 (contextMetadataOffset + a.metadataOffset)).signExtend
      64))) = a.read E.metadata ∧
    ∀ b ∈ RM.access (.mem .rdi ((BitVec.ofNat 8 (contextMetadataOffset +
      a.metadataOffset)).signExtend 64)) .load 32 s, E.Allowed b := by
  have hdisp : (BitVec.ofNat 8 (contextMetadataOffset + a.metadataOffset)).signExtend 64
      = BitVec.ofNat 64 (contextMetadataOffset + a.metadataOffset) := by
    cases a <;> rfl
  have hin : Inside (E.context + BitVec.ofNat 64 (contextMetadataOffset + a.metadataOffset)) 4
      E.context contextSize := by
    simp only [Inside]
    cases a <;> simp [contextMetadataOffset, Ancillary.metadataOffset, contextSize]
  have hself : Inside (E.fp - 64) 64 (E.fp - 64) 64 := by simp [Inside]
  rw [hdisp]
  constructor
  · simp only [State.src, State.get, h.rdi]
    rw [show (32 / 8 : Nat) = 4 from rfl,
      h.readLE_eq (by omega) ((E.contextApart hprofile).mono hself hin), E.metadataAt hprofile a]
    simp
  · intro b hb
    obtain rfl := List.mem_singleton.mp hb
    refine .inr (.inl ⟨hprofile, ?_⟩)
    simpa only [h.rdi] using hin

variable {k : BitVec 32}

theorem Sim.scratch_src (h : Sim E offsets failure m l s) (hk : k.toNat < scratchWords)
    (hm : m &&& (1#16 <<< k.toNat) ≠ 0) :
    s.src 32 (.rm (.mem .rbp ((scratchDisplacement k).signExtend 64))) = l.scratch k.toNat := by
  rw [h.frame.scratch_src hk, h.scratch _ hk (getLsbD_of_and_bit_ne_zero hm)]
  simp

theorem Frame.input_len (h : Frame E s) : s.src 32 (.rm (.reg .r13)) = E.input.len := by
  have hlen : ∀ profile,
      (profileInput profile E.bytes E.metadata).len = clampLen E.bytes.length := by
    intro profile
    cases profile <;> rfl
  show s.reg 32 .r13 = _
  rw [h.r13]
  exact ((hlen _).trans (if_pos E.small)).symm

section Instruction

variable (L : Layout (Encodes image) is E.profile offsets failure epilogue stop)
  (h : Sim E offsets failure m l s)
include L h

theorem sim_ldAbs {off : BitVec 32} {width : LoadWidth}
    (hb : Block (Encodes image) (Target.offset offsets failure epilogue)
      (.op (movImm .r14d off) :: (validateBounds width ++
        (validateAddressAdd ++ validateGuardedLoad width E.profile)))
      (nativeOffset offsets failure l.pc) (nativeOffset offsets failure (l.pc + 1)))
    (hnative : E.profile = .nativeAlignedWords → width = .word ∧ off.toNat % 4 = 0) :
    Follows image E offsets failure epilogue m s
      (match E.input.load off width with
        | none => .return 0
        | some v => .next { l with accumulator := v, pc := l.pc + 1 }) := by
  obtain ⟨p₁, h₁, hb⟩ := hb.of_op
  have hagree : ∀ q,
      Agrees work s ((s.setReg 32 .r14 (s.src 32 (.imm (off.signExtend 64)))).goto q) := fun q =>
    ⟨rfl, fun r hr => by simp [ne_of_not_mem_work hr]⟩
  have hload := leads_packetLoad [] hb (h.frame.of_agrees (hagree p₁)) rfl rfl
    (by simp) (.inr ⟨rfl, fun hp => (hnative hp).2⟩) fun hp => (hnative hp).1
  have hlead := leads_op h₁ h.ip (exec_mov _ _ 32 .r14 (.imm _)) rfl rfl hload
  cases hv : E.input.load off width with
  | none =>
    rw [hv] at hlead
    exact .fails L h.frame (hlead.trans fun s' hs' => .here (.trans (hagree p₁) hs'))
  | some v =>
    rw [hv] at hlead
    refine .lands (x := l.index) h (hlead.trans fun s' hs' => .here ?_)
    exact { hs'.trans (hagree p₁) with idx := hs'.idx.trans (by simpa using h.idx) }

theorem sim_ldInd {width : LoadWidth}
    (hb : Block (Encodes image) (Target.offset offsets failure epilogue)
      (validateIndirectLoad k width E.profile)
      (nativeOffset offsets failure l.pc) (nativeOffset offsets failure (l.pc + 1)))
    (hnative : E.profile = .nativeAlignedWords → width = .word) :
    Follows image E offsets failure epilogue m s
      (if l.index.toNat + k.toNat < 2 ^ 32 then
        match E.input.load (l.index + k) width with
        | none => .return 0
        | some v => .next { l with accumulator := v, pc := l.pc + 1 }
      else .return 0) := by
  obtain ⟨p₁, h₁, hb⟩ := hb.of_op
  obtain ⟨p₂, h₂, hb⟩ := hb.of_op
  obtain ⟨p₃, h₃, hb⟩ := hb.of_jcc rfl
  -- the state behind the address computation: its carry is the interpreter's `checked_add`
  generalize hs₁ : (s.setReg 32 .r14 (s.src 32 (.rm (.reg .rcx)))).goto p₁ = s₁
  generalize hs₂ : ((s₁.setReg 32 .r14 (s₁.reg 32 .r14 + s₁.src 32 (.imm (k.signExtend 64)))).flags
    (some (decide (2 ^ 32 ≤ (s₁.reg 32 .r14).toNat + (s₁.src 32 (.imm (k.signExtend 64))).toNat)))
    (some (s₁.reg 32 .r14 + s₁.src 32 (.imm (k.signExtend 64)) == 0))).goto p₂ = s₂
  have hr14 : s₁.reg 32 .r14 = l.index := by
    subst hs₁
    simpa using h.idx
  have hagree : ∀ q, Agrees work s (s₂.goto q) := by
    intro q
    subst hs₂ hs₁
    exact ⟨rfl, fun r hr => by simp [ne_of_not_mem_work hr]⟩
  have hcf : Cc.b.eval s₂ = some (decide (2 ^ 32 ≤ l.index.toNat + k.toNat)) := by
    subst hs₂
    simp [Cc.eval, hr14]
  have hoff : s₂.regs .r14 = (l.index + k).setWidth 64 := by
    subst hs₂
    simp [hr14]
  have hbranch : ∀ {Q : State → Prop},
      Leads image E.Allowed
        (s₂.goto (if decide (2 ^ 32 ≤ l.index.toNat + k.toNat) then failure else p₃)) Q →
      Leads image E.Allowed s Q := by
    intro Q hQ
    refine leads_op h₁ h.ip (exec_mov _ _ 32 .r14 (.rm (.reg .rcx))) rfl rfl ?_
    rw [hs₁]
    refine leads_op h₂ (by rw [← hs₁]; rfl) (exec_add _ _ 32 .r14 (.imm _)) rfl rfl ?_
    rw [hs₂]
    exact leads_jcc h₃ (by rw [← hs₂]; rfl) hcf hQ
  by_cases hlt : l.index.toNat + k.toNat < 2 ^ 32
  · rw [if_pos hlt]
    rw [decide_eq_false (by omega)] at hbranch
    have hlead := hbranch (leads_packetLoad (s := s₂.goto p₃) _ hb (h.frame.of_agrees (hagree p₃))
      rfl rfl (by simpa using hoff) (.inl rfl) hnative)
    cases hv : E.input.load (l.index + k) width with
    | none =>
      rw [hv] at hlead
      exact .fails L h.frame (hlead.trans fun s' hs' => .here (.trans (hagree p₃) hs'))
    | some v =>
      rw [hv] at hlead
      refine .lands (x := l.index) h (hlead.trans fun s' hs' => .here ?_)
      refine { hs'.trans (hagree p₃) with idx := hs'.idx.trans ?_ }
      subst hs₂ hs₁
      simpa using h.idx
  · rw [if_neg hlt]
    rw [decide_eq_true (by omega)] at hbranch
    exact .fails L h.frame (hbranch (.here ⟨hagree failure, rfl⟩))

theorem sim_ldxBMsh {off : BitVec 32}
    (hb : Block (Encodes image) (Target.offset offsets failure epilogue)
      (.op (movImm .r14d off) :: (validateBounds .byte ++ ([] ++ (validateAddressAdd ++
        [.op .speculationBarrier, .op (.load .byte .ecx .r14 0),
          .op (binaryImm .and .word .ecx 0x0f), .op (.shiftImmediate .left .word .ecx 2)]))))
      (nativeOffset offsets failure l.pc) (nativeOffset offsets failure (l.pc + 1)))
    (hnative : E.profile ≠ .nativeAlignedWords) :
    Follows image E offsets failure epilogue m s
      (match E.input.load off .byte with
        | none => .return 0
        | some v => .next { l with index := (v &&& 0x0f) <<< 2, pc := l.pc + 1 }) := by
  obtain ⟨p₁, h₁, hb⟩ := hb.of_op
  have hagree : ∀ q,
      Agrees work s ((s.setReg 32 .r14 (s.src 32 (.imm (off.signExtend 64)))).goto q) := fun q =>
    ⟨rfl, fun r hr => by simp [ne_of_not_mem_work hr]⟩
  have hload := leads_packetLoadToX off hb (h.frame.of_agrees (hagree p₁)) rfl rfl (by simp) hnative
  have hlead := leads_op h₁ h.ip (exec_mov _ _ 32 .r14 (.imm _)) rfl rfl hload
  cases hv : E.input.load off .byte with
  | none =>
    rw [hv] at hlead
    exact .fails L h.frame (hlead.trans fun s' hs' => .here (.trans (hagree p₁) hs'))
  | some v =>
    rw [hv] at hlead
    refine .lands (a := l.accumulator) h (hlead.trans fun s' hs' => .here ?_)
    exact { hs'.trans (hagree p₁) with acc := hs'.acc.trans (by simpa using h.acc) }

theorem sim_jmp {op : JmpOp} {src : Source} {operand : BitVec 32}
    {jt jf : BitVec 8} (ho : (match src with | .k => k | .x => l.index) = operand)
    (hb : Block (Encodes image) (Target.offset offsets failure epilogue)
      [validateComparison op src k, .jcc (jumpCondition op) (.source (l.pc + 1 + jt.toNat)),
        .jump (.source (l.pc + 1 + jf.toNat))]
      (nativeOffset offsets failure l.pc) (nativeOffset offsets failure (l.pc + 1)))
    (ht : l.pc + 1 + jt.toNat < is.length) (hf : l.pc + 1 + jf.toNat < is.length) :
    Follows image E offsets failure epilogue m s (.next { l with
      pc := l.pc + 1 + (if op.holds l.accumulator operand then jt else jf).toNat }) := by
  have hjump := leads_jump (E := E) operand (by rw [h.idx]; exact ho) hb h.ip (L.offset_source ht)
    (L.offset_source hf)
  rw [h.acc] at hjump
  refine hjump.trans fun s' hs' => .here (h.jumps ?_)
  cases hh : op.holds l.accumulator operand with
  | true | false => simpa [hh] using hs'

variable (hwf : WellFormed is) (hfit : FitsProfile is E.profile) {i : Instruction}
include hwf hfit

/-- **The block of a source instruction does what the interpreter does.** -/
theorem sim_instruction {out : BitVec 16} (hi : is[l.pc]? = some i)
    (hout : scratchTransfer l.pc i m = .ok out) :
    Follows image E offsets failure epilogue out s (evaluateInstruction E.input i l) := by
  obtain ⟨position, es, hes, hb⟩ := L.body hi
  have hstmt := hwf.statement hi
  have hprofile := hfit hi
  have hsucc := hwf.successors_lt hi
  have hnone : ∀ a ∈ [], E.Allowed a := List.forall_mem_nil _
  unfold validateSourceInstruction at hes
  unfold checkStatement at hstmt
  unfold outsideProfile at hprofile
  unfold scratchTransfer at hout
  unfold successors jumpTargets at hsucc
  unfold evaluateInstruction
  rcases hop : i.op with _ | o
  · simp [hop] at hstmt
  simp only [hop] at hes hstmt hprofile hout hsucc ⊢
  cases o with
  | ldImm =>
    cases hes
    cases hout
    exact .lands h (leads_moveAcc (.imm _) hb h.ip h.idx rfl (by simp) hnone)
  | ldAbs width =>
    cases hout
    unfold validateAbsoluteLoad at hes
    cases hanc : ancillaryFromOffset i.k with
    | some field =>
      simp only [hanc] at hes ⊢
      split at hes
      · rename_i hctx
        cases hes
        have hvalue : E.input.ancillary field = some (field.read E.metadata) := by
          simp only [Call.input, hctx]
          rfl
        obtain ⟨hsrc, hallowed⟩ := h.frame.metadata_src hctx field
        rw [hvalue]
        exact .lands h (leads_moveAcc (.rm (.mem .rdi _)) hb h.ip h.idx rfl hsrc hallowed)
      · cases hes
    | none =>
      simp only [hanc] at hes ⊢
      cases hes
      refine sim_ldAbs L h hb fun hnative => ?_
      simpa [hanc, hnative] using hprofile
  | ldInd width =>
    cases hout
    cases hes
    refine sim_ldInd L h hb fun hnative => ?_
    simpa [hnative] using hprofile
  | ldMem | ldxMem =>
    simp only at hstmt hout ⊢
    split at hstmt
    · cases hstmt
    rename_i hk
    split at hout
    · cases hout
    rename_i hm
    cases hout
    cases hes
    have hk' : i.k.toNat < scratchWords := by omega
    rw [if_pos hk']
    have hallowed : ∀ a ∈ RM.access (.mem .rbp _) .load 32 s, E.Allowed a :=
      fun _ ha => h.frame.scratch_allowed hk' (.inl rfl) ha
    first
    | exact .lands h (leads_moveAcc (.rm _) hb h.ip h.idx rfl (h.scratch_src hk' hm) hallowed)
    | exact .lands h (leads_moveIdx (.rm _) hb h.ip h.acc rfl (h.scratch_src hk' hm) hallowed)
  | ldLen =>
    cases hes
    cases hout
    exact .lands h (leads_moveAcc (.rm (.reg .r13)) hb h.ip h.idx rfl h.frame.input_len hnone)
  | ldxImm =>
    cases hes
    cases hout
    exact .lands h (leads_moveIdx (.imm _) hb h.ip h.acc rfl (by simp) hnone)
  | ldxLen =>
    cases hes
    cases hout
    exact .lands h (leads_moveIdx (.rm (.reg .r13)) hb h.ip h.acc rfl h.frame.input_len hnone)
  | ldxBMsh =>
    cases hout
    obtain ⟨load, hload, hes⟩ := bind_eq_ok.mp hes
    cases hes
    unfold validateAbsoluteLoadToX at hload
    split at hload
    · cases hload
    cases hload
    refine sim_ldxBMsh L h ?_ fun hnative => ?_
    · simpa using hb
    · simp [hnative] at hprofile
  | st | stx =>
    simp only at hstmt ⊢
    split at hstmt
    · cases hstmt
    rename_i hk
    cases hout
    cases hes
    have hk' : i.k.toNat < scratchWords := by omega
    rw [if_pos hk']
    refine (leads_store hb h.frame h.ip hk').trans fun s' hs' => .here ?_
    obtain ⟨hregs, hmem, hip⟩ := hs'
    refine h.stores hk' hregs (hmem.trans ?_) hip
    first | rw [← h.acc]; rfl | rw [← h.idx]; rfl
  | alu op src =>
    cases hes
    cases hout
    have hdiv : op = .div ∨ op = .mod → src = .k → i.k ≠ 0 := by
      rintro (rfl | rfl) rfl hk <;> simp [hk] at hstmt
    have hshift : op = .lsh ∨ op = .rsh → src = .k → i.k.toNat < 32 := by
      rintro (rfl | rfl) rfl <;> by_contra hk <;> simp [Nat.not_lt.mp hk] at hstmt
    show Follows _ _ _ _ _ _ _ (evaluateAlu op src i l)
    have halu := leads_alu (E := E) hb h.ip rfl h.acc h.idx hdiv hshift
    cases he : evaluateAlu op src i l with
    | next l' =>
      rw [he] at halu
      obtain ⟨hl, heq⟩ := halu
      rw [heq]
      exact .lands h hl
    | «return» v =>
      rw [he] at halu
      obtain ⟨hl, rfl⟩ := halu
      exact .fails L h.frame hl
    | panic =>
      rw [he] at halu
      exact halu
  | aluNeg =>
    cases hes
    cases hout
    exact .lands h (leads_setAcc hb h.ip h.idx rfl (exec_neg _ _ 32 .rax) rfl (by rw [h.acc]))
  | jmpJa =>
    cases hes
    cases hout
    obtain ⟨p₁, h₁, -⟩ := hb.of_jump (L.offset_source (hsucc _ (by simp)))
    refine leads_op h₁ h.ip (i := .jmp _) rfl rfl rfl (.here (h.jumps ⟨⟨rfl, fun _ _ => rfl⟩, rfl⟩))
  | jmp op src =>
    cases hes
    cases hout
    exact sim_jmp L h rfl hb (hsucc _ (by simp)) (hsucc _ (by simp))
  | retK =>
    cases hes
    obtain ⟨p₁, h₁, hb⟩ := hb.of_op
    obtain ⟨p₂, h₂, -⟩ := hb.of_jump rfl
    refine leads_op h₁ h.ip (exec_mov _ _ 32 .rax (.imm _)) rfl rfl ?_
    refine leads_op h₂ rfl (i := .jmp epilogue) rfl rfl rfl (.here ⟨?_, rfl, by simp⟩)
    exact h.frame.of_agrees ⟨rfl, fun r hr => by simp [ne_of_not_mem_work hr]⟩
  | retA =>
    cases hes
    obtain ⟨p₁, h₁, -⟩ := hb.of_jump rfl
    exact leads_op h₁ h.ip (i := .jmp epilogue) rfl rfl rfl
      (.here ⟨h.frame.of_agrees ⟨rfl, fun _ _ => rfl⟩, rfl, h.acc⟩)
  | miscTax =>
    cases hes
    cases hout
    exact .lands h (leads_moveIdx (.rm (.reg .rax)) hb h.ip h.acc rfl h.acc hnone)
  | miscTxa =>
    cases hes
    cases hout
    exact .lands h (leads_moveAcc (.rm (.reg .rcx)) hb h.ip h.idx rfl h.idx hnone)

/-! ### Runs -/

variable {inc : Nat → Option (BitVec 16)} (hinc : ScratchClosed is inc)
include hinc

/-- **One iteration**: the relation holds again at the next source instruction. -/
theorem sim_step (hi : is[l.pc]? = some i) (hm : inc l.pc = some m) :
    match evaluateInstruction E.input i l with
    | .next l' => ∃ m', inc l'.pc = some m' ∧ l.pc < l'.pc ∧ l'.pc < is.length ∧
        Leads image E.Allowed s (Sim E offsets failure m' l')
    | .return v => Leads image E.Allowed s (AtEpilogue E epilogue v)
    | .panic => False := by
  obtain ⟨out, hout, hsucc⟩ := hinc.step hi hm
  have hfollow := sim_instruction L h hwf hfit hi hout
  cases he : evaluateInstruction E.input i l with
  | next l' =>
    rw [he] at hfollow
    have hmem := evaluateInstruction_next he
    obtain ⟨m', hm', hsub⟩ := hsucc _ hmem
    refine ⟨m', hm', lt_of_mem_successors hmem, hwf.successors_lt hi _ hmem, ?_⟩
    exact hfollow.trans fun s' hs' => .here (hs'.mono hsub)
  | «return» v | panic =>
    rw [he] at hfollow
    exact hfollow

/-- **A run of the interpreter is followed up to the epilogue.**  The induction is on the fuel:
the program counter only grows, so the instructions left are enough of it. -/
theorem sim_run (fuel steps : Nat) (hpc : l.pc < is.length)
    (hfuel : is.length ≤ l.pc + fuel) (hm : inc l.pc = some m) :
    ∃ v n, evaluateLoop is E.input fuel steps l = some (v, n) ∧
      Leads image E.Allowed s (AtEpilogue E epilogue v) := by
  induction fuel generalizing l s m steps with
  | zero => omega
  | succ fuel ih =>
    have hi : is[l.pc]? = some is[l.pc] := List.getElem?_eq_getElem hpc
    have hstep := sim_step L h hwf hfit hinc hi hm
    simp only [evaluateLoop, hi]
    cases he : evaluateInstruction E.input is[l.pc] l with
    | next l' =>
      rw [he] at hstep
      obtain ⟨m', hm', hgrow, hlt, s', hrun, hs'⟩ := hstep
      obtain ⟨v, n, hv, hlead⟩ := ih hs' (steps + 1) hlt (by omega) hm'
      exact ⟨v, n, hv, Leads.trans ⟨s', hrun, rfl⟩ fun _ e => e ▸ hlead⟩
    | «return» v =>
      rw [he] at hstep
      exact ⟨v, steps + 1, rfl, hstep⟩
    | panic =>
      rw [he] at hstep
      exact hstep.elim

end Instruction

end

end KernelAx.Cbpf

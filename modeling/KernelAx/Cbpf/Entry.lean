import KernelAx.Cbpf.Simulation

/-!
# Classic BPF — calling native code

An `Invocation` is a machine state at the entry of an image under the System V convention: the
packet and its length, or a context record that points to them, and enough stack. The prologue
turns it into a `Call`; the epilogue gives the caller's registers and stack back.
-/

namespace KernelAx.Cbpf

open X86

/-- A state about to execute a native image. -/
structure Invocation where
  profile : InputProfile
  bytes : List Byte
  metadata : PacketMetadata
  data : Addr
  state : State
  ip : state.ip = .code 0
  small : bytes.length < 2 ^ 32
  nowrap : data.toNat + bytes.length ≤ 2 ^ 64
  packet : ∀ (i : Nat) (h : i < bytes.length), state.mem (data + BitVec.ofNat 64 i) = bytes[i]
  /-- The 104 bytes of stack below the return address are apart from the packet. -/
  stack : Apart (state.regs .rsp - 104) 104 data bytes.length
  arguments : profile ≠ .packetContextBigEndian →
    state.regs .rdi = data ∧ state.reg 32 .rsi = BitVec.ofNat 32 bytes.length
  /-- The context record holds the packet's address, its length and the metadata. -/
  context : profile = .packetContextBigEndian →
    readLE state.mem (state.regs .rdi) 8 = data.toNat ∧
    readLE state.mem (state.regs .rdi + BitVec.ofNat 64 contextLenOffset) 4 = bytes.length ∧
    (∀ a : Ancillary,
      readLE state.mem (state.regs .rdi +
          BitVec.ofNat 64 (contextMetadataOffset + a.metadataOffset))
        4 = (a.read metadata).toNat) ∧
    Apart (state.regs .rsp - 104) 104 (state.regs .rdi) contextSize

namespace Invocation

variable (I : Invocation)

/-- The frame pointer the prologue sets up, behind five saved registers. -/
def fp : Addr := I.state.regs .rsp - 40

/-- The stack words behind the frame: five saved registers and the return address. -/
def save (j : Nat) : Addr := I.fp + BitVec.ofNat 64 (8 * j)

theorem save_apart {i j : Nat} (hi : i < 6) (hj : j < 6) (h : i ≠ j) :
    Apart (I.save i) 8 (I.save j) 8 := by
  rcases Nat.lt_or_gt_of_ne h with hlt | hlt
  · exact apart_of_offsets I.fp (by omega) (by omega)
  · exact (apart_of_offsets I.fp (by omega) (by omega)).symm

theorem save_inside {j : Nat} (hj : j < 6) : Inside (I.save j) 8 I.fp 48 := by
  simp only [Inside, save]
  bv_omega

theorem save_succ (j : Nat) : I.save j + 8 = I.save (j + 1) := by
  simp only [save]
  bv_omega

def saved : Mem :=
  let m := writeLE I.state.mem (I.save 4) 8 (I.state.regs .rbp).toNat
  let m := writeLE m (I.save 3) 8 (I.state.regs .r12).toNat
  let m := writeLE m (I.save 2) 8 (I.state.regs .r13).toNat
  let m := writeLE m (I.save 1) 8 (I.state.regs .r14).toNat
  writeLE m (I.save 0) 8 (I.state.regs .r15).toNat

variable {a : Addr}

theorem saved_of_not_inRange (h : ¬ InRange a I.fp 40) : I.saved a = I.state.mem a := by
  have hout : ∀ j < 5, ¬ InRange a (I.save j) 8 := by
    intro j hj
    simp only [InRange, save] at *
    bv_omega
  unfold saved
  rw [writeLE_of_not_inRange _ _ _ _ _ (by omega) (hout 0 (by omega)),
    writeLE_of_not_inRange _ _ _ _ _ (by omega) (hout 1 (by omega)),
    writeLE_of_not_inRange _ _ _ _ _ (by omega) (hout 2 (by omega)),
    writeLE_of_not_inRange _ _ _ _ _ (by omega) (hout 3 (by omega)),
    writeLE_of_not_inRange _ _ _ _ _ (by omega) (hout 4 (by omega))]

/-- Every saved register can be read back, and the return address is untouched. -/
theorem readLE_save : readLE I.saved (I.save 0) 8 = (I.state.regs .r15).toNat ∧
    readLE I.saved (I.save 1) 8 = (I.state.regs .r14).toNat ∧
    readLE I.saved (I.save 2) 8 = (I.state.regs .r13).toNat ∧
    readLE I.saved (I.save 3) 8 = (I.state.regs .r12).toNat ∧
    readLE I.saved (I.save 4) 8 = (I.state.regs .rbp).toNat ∧
    readLE I.saved (I.save 5) 8 = readLE I.state.mem (I.save 5) 8 := by
  have hself : ∀ (m : Mem) (j : Nat) (v : BitVec 64),
      readLE (writeLE m (I.save j) 8 v.toNat) (I.save j) 8 = v.toNat := by
    intro m j v
    have := v.isLt
    rw [readLE_writeLE _ _ _ _ (by omega), Nat.mod_eq_of_lt (by omega)]
  have hskip : ∀ (m : Mem) (v i j : Nat), i < 6 → j < 6 → i ≠ j →
      readLE (writeLE m (I.save i) 8 v) (I.save j) 8 = readLE m (I.save j) 8 :=
    fun m v _ _ hi hj h => readLE_writeLE_of_apart m v (by omega) (by omega) (I.save_apart hi hj h)
  unfold saved
  simp (disch := decide) only [hself, hskip, and_self]

theorem readLE_saved {k : Nat} (hk : k ≤ 2 ^ 64) (h : Apart (I.state.regs .rsp - 104) 104 a k) :
    readLE I.saved a k = readLE I.state.mem a k := by
  refine readLE_congr fun i hi => I.saved_of_not_inRange fun hr => h (a + BitVec.ofNat 64 i) ?_ ?_
  · simp only [InRange, fp] at *
    bv_omega
  · simp only [InRange]
    bv_omega

theorem scratch_apart {k : Nat} (h : Apart (I.state.regs .rsp - 104) 104 a k) :
    Apart (I.fp - 64) 64 a k := by
  intro x hx
  refine h x ?_
  simp only [InRange, fp] at *
  bv_omega

theorem saved_packet (i : Nat) (h : i < I.bytes.length) :
    I.saved (I.data + BitVec.ofNat 64 i) = I.bytes[i] := by
  rw [I.saved_of_not_inRange, I.packet i h]
  intro hr
  have hsmall := I.small
  refine I.stack (I.data + BitVec.ofNat 64 i) ?_ ?_
  · simp only [InRange, fp] at *
    bv_omega
  · simp only [InRange]
    bv_omega

theorem saved_metadata (hp : I.profile = .packetContextBigEndian) (a : Ancillary) :
    readLE I.saved (I.state.regs .rdi +
      BitVec.ofNat 64 (contextMetadataOffset + a.metadataOffset)) 4 =
        (a.read I.metadata).toNat := by
  obtain ⟨-, -, hmeta, hapart⟩ := I.context hp
  rw [I.readLE_saved (by omega), hmeta a]
  refine hapart.mono (by simp [Inside]) ?_
  simp only [Inside]
  cases a <;> simp [contextMetadataOffset, Ancillary.metadataOffset, contextSize]

def call : Call where
  profile := I.profile
  bytes := I.bytes
  metadata := I.metadata
  data := I.data
  context := I.state.regs .rdi
  fp := I.fp
  rbx := I.state.regs .rbx
  mem := I.saved
  small := I.small
  nowrap := I.nowrap
  packet := I.saved_packet
  apart := I.scratch_apart I.stack
  metadataAt := I.saved_metadata
  contextApart := fun hp => I.scratch_apart (I.context hp).2.2.2

def returnAddress : Addr := BitVec.ofNat 64 (readLE I.state.mem (I.state.regs .rsp) 8)

end Invocation

section

variable {image : List Byte} {is : List Instruction} {offsets : List Nat}
  {failure epilogue stop : Nat} {res : Target → Option Nat} {I : Invocation} {s : State}
  {p q r : Nat}

/-! ### The prologue -/

variable {a : Addr}

theorem leads_push {E : Call} {Q : State → Prop} {d : Register} {r : Reg}
    (h : Encodes image p (.push d) q) (hr : d.toReg = r) (hp : s.ip = .code p)
    (ha : s.regs .rsp - 8 = a) (hin : Inside a 8 E.fp 48)
    (hl : Leads image E.Allowed
      { s with
        mem := writeLE s.mem a 8 (s.regs r).toNat
        regs := Function.update s.regs .rsp a
        ip := .code q } Q) : Leads image E.Allowed s Q := by
  subst hr ha
  refine leads_mem h hp (i := .push d.toReg) rfl rfl ?_ hl
  intro b hb
  obtain rfl := List.mem_singleton.mp hb
  exact hin

structure Framed (I : Invocation) (p : Nat) (s : State) : Prop where
  ip : s.ip = .code p
  rbp : s.regs .rbp = I.fp
  rsp : s.regs .rsp = I.fp - 64
  mem : s.mem = I.saved
  regs : ∀ r, r ≠ .rbp → r ≠ .rsp → s.regs r = I.state.regs r

theorem leads_prologueFrame (hb : Block (Encodes image) res prologueFrame 0 r) :
    Leads image I.call.Allowed I.state (Framed I r) := by
  obtain ⟨p₁, h₁, hb⟩ := hb.of_op
  obtain ⟨p₂, h₂, hb⟩ := hb.of_op
  obtain ⟨p₃, h₃, hb⟩ := hb.of_op
  obtain ⟨p₄, h₄, hb⟩ := hb.of_op
  obtain ⟨p₅, h₅, hb⟩ := hb.of_op
  obtain ⟨p₆, h₆, hb⟩ := hb.of_op
  obtain ⟨p₇, h₇, hb⟩ := hb.of_op
  obtain rfl := hb.of_nil
  have hpush : ∀ j < 5, I.save (j + 1) - 8 = I.save j := by
    intro j hj
    rw [← I.save_succ]
    bv_omega
  have hentry : I.state.regs .rsp = I.save 5 := by
    simp only [Invocation.save, Invocation.fp]
    bv_omega
  refine leads_push h₁ (r := .rbp) rfl I.ip ?_ (I.save_inside (j := 4) (by omega)) ?_
  · rw [hentry, hpush 4 (by omega)]
  refine leads_push h₂ (r := .r12) rfl rfl ?_ (I.save_inside (j := 3) (by omega)) ?_
  · simpa using hpush 3 (by omega)
  refine leads_push h₃ (r := .r13) rfl rfl ?_ (I.save_inside (j := 2) (by omega)) ?_
  · simpa using hpush 2 (by omega)
  refine leads_push h₄ (r := .r14) rfl rfl ?_ (I.save_inside (j := 1) (by omega)) ?_
  · simpa using hpush 1 (by omega)
  refine leads_push h₅ (r := .r15) rfl rfl ?_ (I.save_inside (j := 0) (by omega)) ?_
  · simpa using hpush 0 (by omega)
  have hfp : I.save 0 = I.fp := by simp [Invocation.save]
  refine leads_op h₆ rfl (exec_mov _ _ 64 .rbp (.rm (.reg .rsp))) rfl rfl ?_
  refine leads_op h₇ rfl (exec_sub _ _ 64 .rsp (.imm _)) rfl rfl (.here ⟨rfl, ?_, ?_, ?_, ?_⟩)
  · simp [hfp]
  · simp [hfp]
  · simp [Invocation.saved]
  · intro r hbp hsp
    simp [hbp, hsp]

/-- The packet and its length are in `r12` and `r13d`. -/
structure Bound (I : Invocation) (p : Nat) (s : State) : Prop where
  ip : s.ip = .code p
  r12 : s.regs .r12 = I.data
  r13 : s.reg 32 .r13 = BitVec.ofNat 32 I.bytes.length
  rdi : s.regs .rdi = I.state.regs .rdi
  rbp : s.regs .rbp = I.fp
  rsp : s.regs .rsp = I.fp - 64
  mem : s.mem = I.saved
  rbx : s.regs .rbx = I.state.regs .rbx

theorem leads_prologueArguments
    (hb : Block (Encodes image) res (prologueArguments I.profile) p r) (h : Framed I p s) :
    Leads image I.call.Allowed s (Bound I r) := by
  by_cases hctx : I.profile = .packetContextBigEndian
  · obtain ⟨hdata, hlen, -, hapart⟩ := I.context hctx
    have hrdi := h.regs .rdi (by decide) (by decide)
    have hself : Inside (I.state.regs .rsp - 104) 104 (I.state.regs .rsp - 104) 104 := by
      simp [Inside]
    have hdata' := (I.readLE_saved (by omega) (hapart.mono hself
      (show Inside (I.state.regs .rdi) 8 _ _ by simp [Inside, contextSize]))).trans hdata
    have hlen' := (I.readLE_saved (by omega) (hapart.mono hself
      (show Inside (I.state.regs .rdi + BitVec.ofNat 64 contextLenOffset) 4 _ _ by
        simp [Inside, contextSize, contextLenOffset]))).trans hlen
    rw [hctx] at hb
    obtain ⟨p₁, h₁, hb⟩ := hb.of_op
    obtain ⟨p₂, h₂, hb⟩ := hb.of_op
    obtain rfl := hb.of_nil
    have hzero : s.regs .rdi + (0 : BitVec 8).signExtend 64 = I.state.regs .rdi := by
      rw [hrdi, show (0 : BitVec 8).signExtend 64 = 0#64 from rfl, BitVec.add_zero]
    have height : I.state.regs .rdi + (BitVec.ofNat 8 contextLenOffset).signExtend 64
        = I.state.regs .rdi + BitVec.ofNat 64 contextLenOffset := by
      rw [show (BitVec.ofNat 8 contextLenOffset).signExtend 64
        = BitVec.ofNat 64 contextLenOffset from rfl]
    refine leads_mem h₁ h.ip (exec_load _ _ 64 .r12 .rdi _) rfl ?_ ?_
    · intro a ha
      obtain rfl := List.mem_singleton.mp ha
      refine .inr (.inl ⟨hctx, ?_⟩)
      rw [hzero]
      simp [Inside, Invocation.call, contextSize]
    refine leads_mem h₂ rfl (exec_load _ _ 32 .r13 .rdi _) rfl ?_ ?_
    · intro a ha
      obtain rfl := List.mem_singleton.mp ha
      refine .inr (.inl ⟨hctx, ?_⟩)
      simp [Inside, Invocation.call, contextSize, contextLenOffset, hrdi]
    refine .here ⟨rfl, ?_, ?_, by simp [hrdi], by simp [h.rbp], by simp [h.rsp],
      by simp [h.mem], ?_⟩
    · simp [hrdi, h.mem, hdata']
    · simp [hrdi, height, h.mem, hlen']
    · simp [h.regs]
  · obtain ⟨hdata, hlen⟩ := I.arguments hctx
    have hes : prologueArguments I.profile
        = [.op (movReg .qword .r12 .rdi), .op (movReg .word .r13d .esi)] := by
      revert hctx
      cases I.profile <;> simp [prologueArguments]
    rw [hes] at hb
    obtain ⟨p₁, h₁, hb⟩ := hb.of_op
    obtain ⟨p₂, h₂, hb⟩ := hb.of_op
    obtain rfl := hb.of_nil
    refine leads_op h₁ h.ip (exec_mov _ _ 64 .r12 (.rm (.reg .rdi))) rfl rfl ?_
    refine leads_op h₂ rfl (exec_mov _ _ 32 .r13 (.rm (.reg .rsi))) rfl rfl ?_
    have hrsi : s.reg 32 .rsi = I.state.reg 32 .rsi := by simp [State.reg_def, h.regs]
    exact .here ⟨rfl, by simp [h.regs, hdata], by simp [hrsi, hlen], by simp [h.regs],
      by simp [h.rbp], by simp [h.rsp], by simp [h.mem], by simp [h.regs]⟩

/-- **Behind the prologue** the machine is where the interpreter starts. -/
theorem leads_prologue (L : Layout (Encodes image) is I.profile offsets failure epilogue stop) :
    Leads image I.call.Allowed I.state (Sim I.call offsets failure 0 .init) := by
  obtain ⟨p₁, hframe, hb⟩ := L.prologue.split
  obtain ⟨p₂, hargs, hclear⟩ := hb.split
  refine (leads_prologueFrame hframe).trans fun s₁ hs₁ => ?_
  refine (leads_prologueArguments hargs hs₁).trans fun s₂ hs₂ => ?_
  obtain ⟨p₃, h₃, hclear⟩ := hclear.of_op
  obtain ⟨p₄, h₄, hclear⟩ := hclear.of_op
  have hend := hclear.of_nil
  refine leads_op h₃ hs₂.ip (exec_xor _ _ 32 .rax (.rm (.reg .rax))) rfl rfl ?_
  refine leads_op h₄ rfl (exec_xor _ _ 32 .rcx (.rm (.reg .rcx))) rfl rfl (.here ?_)
  refine ⟨⟨?_, ?_, ?_, ?_, ?_, ?_, fun a _ => ?_⟩, ?_, ?_, ?_, fun j _ hj => ?_⟩
  · simpa [Invocation.call] using hs₂.r12
  · simpa [Invocation.call] using hs₂.r13
  · simpa [Invocation.call] using hs₂.rdi
  · simpa [Invocation.call] using hs₂.rbp
  · simpa [Invocation.call] using hs₂.rsp
  · simpa [Invocation.call] using hs₂.rbx
  · simpa [Invocation.call] using congrFun hs₂.mem a
  · exact congrArg Ip.code hend
  · simp [Locals.init]
  · simp [Locals.init]
  · simp at hj

/-! ### The epilogue -/

theorem leads_pop {E : Call} {Q : State → Prop} {d : Register} {r : Reg} {v : BitVec 64}
    (h : Encodes image p (.pop d) q) (hr : d.toReg = r) (hp : s.ip = .code p)
    (ha : s.regs .rsp = a) (hin : Inside a 8 E.fp 48) (hv : readLE s.mem a 8 = v.toNat)
    (hl : Leads image E.Allowed
      { s with
        regs := Function.update (Function.update s.regs .rsp (a + 8)) r v
        ip := .code q } Q) : Leads image E.Allowed s Q := by
  subst hr ha
  have hv' : BitVec.ofNat 64 (readLE s.mem (s.regs .rsp) 8) = v := by
    rw [hv]
    simp
  rw [← hv'] at hl
  refine leads_mem h hp (i := .pop d.toReg) rfl rfl ?_ hl
  intro b hb
  obtain rfl := List.mem_singleton.mp hb
  exact hin

/-- The image has returned `v`: control, stack pointer, preserved registers and memory outside of
the stack it was given are the caller's. -/
structure Returns (I : Invocation) (v : BitVec 32) (s : State) : Prop where
  ip : s.ip = .outside I.returnAddress
  value : s.reg 32 .rax = v
  rsp : s.regs .rsp = I.state.regs .rsp + 8
  preserved : ∀ r ∈ [Reg.rbx, .rbp, .r12, .r13, .r14, .r15], s.regs r = I.state.regs r
  mem : ∀ a, ¬ InRange a (I.state.regs .rsp - 104) 104 → s.mem a = I.state.mem a

/-- Inside of the call, memory outside of the stack is the caller's. -/
theorem Invocation.mem_of_frame (I : Invocation) (h : Frame I.call s)
    (ha : ¬ InRange a (I.state.regs .rsp - 104) 104) : s.mem a = I.state.mem a := by
  have hscratch : ¬ InRange a (I.fp - 64) 64 := by
    simp only [InRange, Invocation.fp] at *
    bv_omega
  have hsave : ¬ InRange a I.fp 40 := by
    simp only [InRange, Invocation.fp] at *
    bv_omega
  have hsaved := I.saved_of_not_inRange hsave
  exact (h.mem a hscratch).trans hsaved

theorem leads_epilogue (L : Layout (Encodes image) is I.profile offsets failure epilogue stop)
    {v : BitVec 32} (h : AtEpilogue I.call epilogue v s) :
    Leads image I.call.Allowed s (Returns I v) := by
  obtain ⟨p₁, h₁, hb⟩ := L.epilogueBlock.of_op
  obtain ⟨p₂, h₂, hb⟩ := hb.of_op
  obtain ⟨p₃, h₃, hb⟩ := hb.of_op
  obtain ⟨p₄, h₄, hb⟩ := hb.of_op
  obtain ⟨p₅, h₅, hb⟩ := hb.of_op
  obtain ⟨p₆, h₆, hb⟩ := hb.of_op
  obtain ⟨p₇, h₇, -⟩ := hb.of_op
  -- the body has not touched the saved words
  have hsaved : ∀ j < 6, readLE s.mem (I.save j) 8 = readLE I.saved (I.save j) 8 := by
    intro j hj
    refine h.frame.readLE_eq (by omega) fun x hx hy => ?_
    simp only [InRange, Invocation.save, Invocation.call] at hx hy
    bv_omega
  obtain ⟨hr15, hr14, hr13, hr12, hrbp, hret⟩ := I.readLE_save
  have hstart : s.regs .rsp + 64 = I.save 0 := by
    rw [h.frame.rsp]
    simp only [Invocation.save, Invocation.call]
    bv_omega
  refine leads_op h₁ h.ip (exec_add _ _ 64 .rsp (.imm _)) rfl rfl ?_
  refine leads_pop h₂ (r := .r15) rfl rfl (a := I.save 0) ?_ (I.save_inside (by omega))
    ((hsaved 0 (by omega)).trans hr15) ?_
  · simpa using hstart
  refine leads_pop h₃ (r := .r14) rfl rfl (a := I.save 1) ?_ (I.save_inside (by omega))
    ((hsaved 1 (by omega)).trans hr14) ?_
  · simpa using I.save_succ 0
  refine leads_pop h₄ (r := .r13) rfl rfl (a := I.save 2) ?_ (I.save_inside (by omega))
    ((hsaved 2 (by omega)).trans hr13) ?_
  · simpa using I.save_succ 1
  refine leads_pop h₅ (r := .r12) rfl rfl (a := I.save 3) ?_ (I.save_inside (by omega))
    ((hsaved 3 (by omega)).trans hr12) ?_
  · simpa using I.save_succ 2
  refine leads_pop h₆ (r := .rbp) rfl rfl (a := I.save 4) ?_ (I.save_inside (by omega))
    ((hsaved 4 (by omega)).trans hrbp) ?_
  · simpa using I.save_succ 3
  have hrsp : I.save 5 = I.state.regs .rsp := by
    simp only [Invocation.save, Invocation.fp]
    bv_omega
  have hlast : I.save 4 + 8#64 = I.state.regs .rsp := (I.save_succ 4).trans hrsp
  have hret' := (hsaved 5 (by omega)).trans hret
  have hin := I.save_inside (j := 5) (by omega)
  rw [hrsp] at hret' hin
  refine leads_mem h₇ rfl (i := .ret) rfl rfl ?_ (.here ⟨?_, ?_, ?_, ?_, ?_⟩)
  · intro a ha
    obtain rfl := List.mem_singleton.mp ha
    simpa [Call.Allowed, Invocation.call, hlast] using hin
  · simp [Invocation.returnAddress, hlast, hret']
  · simpa [State.reg] using h.value
  · simp [hlast]
  · intro r hr
    simp only [List.mem_cons, List.not_mem_nil, or_false] at hr
    rcases hr with rfl | rfl | rfl | rfl | rfl | rfl
    · simpa [Invocation.call] using h.frame.rbx
    all_goals simp
  · intro a ha
    simpa using I.mem_of_frame h.frame ha

/-- **An image with a layout is correct**: every invocation returns the interpreter's value on
the packet, and touches only the packet, its context record and the stack it was given. -/
theorem Layout.correct (L : Layout (Encodes image) is I.profile offsets failure epilogue stop)
    (hwf : WellFormed is) (hfit : FitsProfile is I.profile) :
    ∃ v, evaluate is I.call.input = some v ∧
      Leads image I.call.Allowed I.state (Returns I v) := by
  obtain ⟨s, hrun, hsim⟩ := leads_prologue L
  obtain ⟨inc, hinc⟩ := hwf.scratch
  have hpos : 0 < is.length := List.length_pos_iff.mpr hwf.nonempty
  obtain ⟨v, n, hv, hlead⟩ := sim_run (l := .init) L hsim hwf hfit hinc is.length 0
    hpos (by simp) hinc.entry
  refine ⟨v, by simp [evaluate, evaluateCounted, hv], ?_⟩
  exact Leads.trans ⟨s, hrun, rfl⟩ fun _ e =>
    e ▸ hlead.trans fun s' hs' => leads_epilogue L hs'

end

end KernelAx.Cbpf

import KernelAx.X86.Symbolic
import KernelAx.Cbpf.Layout

/-!
# Classic BPF — the frame of native code

What native code may rely on between its prologue and its epilogue, and what it may touch. A
`Call` is a packet (and its context record) in memory next to a 64-byte scratch frame; `Frame`
says that a state is inside of the call; `Allowed` are the accesses it may make.
-/

namespace KernelAx.Cbpf

open X86

structure Call where
  profile : InputProfile
  bytes : List Byte
  metadata : PacketMetadata
  data : Addr
  /-- The first argument: the packet, or the context record. -/
  context : Addr
  /-- The frame pointer: the scratch frame ends here, the saved registers start. -/
  fp : Addr
  /-- The caller's `rbx`, which native code leaves alone. -/
  rbx : BitVec 64
  /-- Memory behind the prologue. -/
  mem : Mem
  small : bytes.length < 2 ^ 32
  nowrap : data.toNat + bytes.length ≤ 2 ^ 64
  packet : ∀ (i : Nat) (h : i < bytes.length), mem (data + BitVec.ofNat 64 i) = bytes[i]
  apart : Apart (fp - 64) 64 data bytes.length
  metadataAt : profile = .packetContextBigEndian → ∀ a : Ancillary,
    readLE mem (context + BitVec.ofNat 64 (contextMetadataOffset + a.metadataOffset)) 4
      = (a.read metadata).toNat
  contextApart : profile = .packetContextBigEndian → Apart (fp - 64) 64 context contextSize

/-- The input a profile presents to the interpreter. -/
def profileInput (profile : InputProfile) (bytes : List Byte) (metadata : PacketMetadata) : Input :=
  match profile with
  | .packetBytesBigEndian => bytesInput bytes
  | .packetContextBigEndian => packetInput bytes metadata
  | .nativeAlignedWords => nativeWordInput bytes

namespace Call

variable (E : Call)

def input : Input := profileInput E.profile E.bytes E.metadata

/-- The accesses of native code: operand loads read the packet, the context record or the scratch
frame; stores go to the scratch frame; pushes, pops and the return use the 48 bytes of saved
registers and return address behind it. -/
def Allowed (a : Access) : Prop :=
  match a.kind with
  | .load => Inside a.addr a.size E.data E.bytes.length ∨
      (E.profile = .packetContextBigEndian ∧ Inside a.addr a.size E.context contextSize) ∨
      Inside a.addr a.size (E.fp - 64) 64
  | .store => Inside a.addr a.size (E.fp - 64) 64
  | .push | .pop => Inside a.addr a.size E.fp 48

def slot (j : Nat) : Addr := E.fp - 64 + BitVec.ofNat 64 (60 - 4 * j)

theorem slot_inside {j : Nat} (hj : j < 16) : Inside (E.slot j) 4 (E.fp - 64) 64 := by
  simp only [Inside, slot]
  bv_omega

theorem slot_apart {i j : Nat} (hi : i < 16) (hj : j < 16) (h : i ≠ j) :
    Apart (E.slot i) 4 (E.slot j) 4 := by
  rcases Nat.lt_or_gt_of_ne h with hlt | hlt
  · exact (apart_of_offsets (E.fp - 64) (show 60 - 4 * j + 4 ≤ 60 - 4 * i by omega) (by omega)).symm
  · exact apart_of_offsets (E.fp - 64) (show 60 - 4 * i + 4 ≤ 60 - 4 * j by omega) (by omega)

theorem scratch_address {k : BitVec 32} (hk : k.toNat < scratchWords) :
    E.fp + (scratchDisplacement k).signExtend 64 = E.slot k.toNat := by
  have hd : (scratchDisplacement k).signExtend 64 =
      BitVec.ofNat 64 (2 ^ 64 - 4 * (k.toNat + 1)) := by
    unfold scratchDisplacement
    have hk : k.toNat < 16 := hk
    generalize k.toNat = n at hk
    interval_cases n <;> rfl
  have hk : k.toNat < 16 := hk
  rw [hd, slot]
  bv_omega

end Call

/-- A state between prologue and epilogue. -/
structure Frame (E : Call) (s : State) : Prop where
  r12 : s.regs .r12 = E.data
  r13 : s.reg 32 .r13 = BitVec.ofNat 32 E.bytes.length
  rdi : s.regs .rdi = E.context
  rbp : s.regs .rbp = E.fp
  rsp : s.regs .rsp = E.fp - 64
  rbx : s.regs .rbx = E.rbx
  mem : ∀ a, ¬ InRange a (E.fp - 64) 64 → s.mem a = E.mem a

/-- The registers the body may write. -/
def work : List Reg := [.rax, .rcx, .rdx, .r14, .r15]

section Frame

variable {E : Call} {s s' : State}

theorem Frame.of_agrees (h : Frame E s) (ha : Agrees work s s') : Frame E s' where
  r12 := (ha.regs .r12 (by decide)).trans h.r12
  r13 := (ha.reg 32 (by decide)).trans h.r13
  rdi := (ha.regs .rdi (by decide)).trans h.rdi
  rbp := (ha.regs .rbp (by decide)).trans h.rbp
  rsp := (ha.regs .rsp (by decide)).trans h.rsp
  rbx := (ha.regs .rbx (by decide)).trans h.rbx
  mem := fun a hna => by rw [ha.mem]; exact h.mem a hna

theorem Frame.len_toNat (h : Frame E s) : (s.reg 32 .r13).toNat = E.bytes.length := by
  have := E.small
  simp [h.r13]
  omega

theorem Frame.readLE_eq (h : Frame E s) {a : Addr} {k : Nat} (hk : k ≤ 2 ^ 64)
    (ha : Apart (E.fp - 64) 64 a k) : readLE s.mem a k = readLE E.mem a k := by
  refine readLE_congr fun i hi => h.mem _ fun hr => ha _ hr ?_
  simp only [InRange]
  bv_omega

end Frame

/-! ### Packet bytes -/

/-- The value of bytes, least significant first. -/
def leNat : List Byte → Nat
  | [] => 0
  | b :: bs => b.toNat + 256 * leNat bs

theorem readLE_eq_leNat {m : Mem} {a : Addr} {bs : List Byte}
    (h : ∀ (i : Nat) (hi : i < bs.length), m (a + BitVec.ofNat 64 i) = bs[i]) :
    readLE m a bs.length = leNat bs := by
  induction bs generalizing a with
  | nil => rfl
  | cons b bs ih =>
    have h0 := h 0 (by simp)
    simp only [BitVec.add_zero, List.getElem_cons_zero] at h0
    have ht : readLE m (a + 1) bs.length = leNat bs := by
      refine ih fun i hi => ?_
      have h1 := h (i + 1) (by simpa using hi)
      rw [show a + BitVec.ofNat 64 (i + 1) = a + 1 + BitVec.ofNat 64 i by bv_omega] at h1
      simpa using h1
    simp only [List.length_cons, readLE, leNat, h0, ht]

theorem Frame.readLE_packet {E : Call} {s : State} (h : Frame E s) {off k : Nat}
    (hle : off + k ≤ E.bytes.length) :
    readLE s.mem (E.data + BitVec.ofNat 64 off) k = leNat ((E.bytes.drop off).take k) := by
  have hsmall := E.small
  have hlen : ((E.bytes.drop off).take k).length = k := by simp; omega
  have hin : Inside (E.data + BitVec.ofNat 64 off) k E.data E.bytes.length := by
    simp only [Inside]
    bv_omega
  have hself : Inside (E.fp - 64) 64 (E.fp - 64) 64 := by simp [Inside]
  rw [h.readLE_eq (by omega) (E.apart.mono hself hin), ← hlen, hlen]
  have hbytes : ∀ i (hi : i < ((E.bytes.drop off).take k).length),
      E.mem (E.data + BitVec.ofNat 64 off + BitVec.ofNat 64 i)
        = ((E.bytes.drop off).take k)[i] := by
    intro i hi
    have hi' : i < k := by rwa [hlen] at hi
    have hp := E.packet (off + i) (by omega)
    rw [show E.data + BitVec.ofNat 64 (off + i)
      = E.data + BitVec.ofNat 64 off + BitVec.ofNat 64 i by bv_omega] at hp
    simpa using hp
  have hread := readLE_eq_leNat hbytes
  rwa [hlen] at hread

end KernelAx.Cbpf

import Mathlib

/-!
# Classic BPF — instructions, metadata and inputs

The wire instruction, the supported opcodes with their raw values, the socket-filter ancillary
metadata, and the inputs a program is evaluated on: a byte slice, a packet with metadata, and a
native-word buffer. `u8`, `u16` and `u32` are bit vectors; `usize` values are natural numbers.
-/

namespace KernelAx.Cbpf

/-! ### Opcodes -/

inductive LoadWidth where
  | byte | half | word
  deriving DecidableEq, Repr

def LoadWidth.bytes : LoadWidth → Nat
  | .byte => 1
  | .half => 2
  | .word => 4

inductive AluOp where
  | add | sub | mul | div | or | and | lsh | rsh | mod | xor
  deriving DecidableEq, Repr

inductive JmpOp where
  | jeq | jgt | jge | jset
  deriving DecidableEq, Repr

/-- The second operand of an ALU or jump instruction: the immediate, or X. -/
inductive Source where
  | k | x
  deriving DecidableEq, Repr

/-- The supported operations; `Opcode.code` gives each its raw value. -/
inductive Opcode where
  | ldImm | ldAbs (w : LoadWidth) | ldInd (w : LoadWidth) | ldMem | ldLen
  | ldxImm | ldxMem | ldxLen | ldxBMsh
  | st | stx
  | alu (op : AluOp) (src : Source) | aluNeg
  | jmpJa | jmp (op : JmpOp) (src : Source)
  | retK | retA
  | miscTax | miscTxa
  deriving DecidableEq, Repr

/-- The raw opcode values, `mod opcode`. -/
def Opcode.code : Opcode → BitVec 16
  | .ldImm => 0x00 | .ldAbs .word => 0x20 | .ldAbs .half => 0x28 | .ldAbs .byte => 0x30
  | .ldInd .word => 0x40 | .ldInd .half => 0x48 | .ldInd .byte => 0x50
  | .ldMem => 0x60 | .ldLen => 0x80
  | .ldxImm => 0x01 | .ldxMem => 0x61 | .ldxLen => 0x81 | .ldxBMsh => 0xb1
  | .st => 0x02 | .stx => 0x03
  | .alu .add .k => 0x04 | .alu .add .x => 0x0c | .alu .sub .k => 0x14 | .alu .sub .x => 0x1c
  | .alu .mul .k => 0x24 | .alu .mul .x => 0x2c | .alu .div .k => 0x34 | .alu .div .x => 0x3c
  | .alu .or .k => 0x44 | .alu .or .x => 0x4c | .alu .and .k => 0x54 | .alu .and .x => 0x5c
  | .alu .lsh .k => 0x64 | .alu .lsh .x => 0x6c | .alu .rsh .k => 0x74 | .alu .rsh .x => 0x7c
  | .aluNeg => 0x84
  | .alu .mod .k => 0x94 | .alu .mod .x => 0x9c | .alu .xor .k => 0xa4 | .alu .xor .x => 0xac
  | .jmpJa => 0x05
  | .jmp .jeq .k => 0x15 | .jmp .jeq .x => 0x1d | .jmp .jgt .k => 0x25 | .jmp .jgt .x => 0x2d
  | .jmp .jge .k => 0x35 | .jmp .jge .x => 0x3d | .jmp .jset .k => 0x45 | .jmp .jset .x => 0x4d
  | .retK => 0x06 | .retA => 0x16
  | .miscTax => 0x07 | .miscTxa => 0x87

/-- The opcodes `is_supported` lists. -/
def Opcode.all : List Opcode :=
  [.ldImm, .ldAbs .word, .ldAbs .half, .ldAbs .byte, .ldInd .word, .ldInd .half, .ldInd .byte,
    .ldMem, .ldLen, .ldxImm, .ldxMem, .ldxLen, .ldxBMsh, .st, .stx,
    .alu .add .k, .alu .add .x, .alu .sub .k, .alu .sub .x, .alu .mul .k, .alu .mul .x,
    .alu .div .k, .alu .div .x, .alu .or .k, .alu .or .x, .alu .and .k, .alu .and .x,
    .alu .lsh .k, .alu .lsh .x, .alu .rsh .k, .alu .rsh .x, .aluNeg, .alu .mod .k, .alu .mod .x,
    .alu .xor .k, .alu .xor .x, .jmpJa, .jmp .jeq .k, .jmp .jeq .x, .jmp .jgt .k, .jmp .jgt .x,
    .jmp .jge .k, .jmp .jge .x, .jmp .jset .k, .jmp .jset .x, .retK, .retA, .miscTax, .miscTxa]

/-- The operation a raw opcode stands for, if it is supported. -/
def Opcode.ofCode (code : BitVec 16) : Option Opcode := Opcode.all.find? fun o => o.code = code

theorem Opcode.code_of_ofCode {code : BitVec 16} {o : Opcode} (h : Opcode.ofCode code = some o) :
    o.code = code := by
  simpa using List.find?_some h

@[simp] theorem Opcode.ofCode_code (o : Opcode) : Opcode.ofCode o.code = some o := by
  rcases o with _ | ⟨_ | _ | _⟩ | ⟨_ | _ | _⟩ | _ | _ | _ | _ | _ | _ | _ | _ |
    ⟨_ | _ | _ | _ | _ | _ | _ | _ | _ | _, _ | _⟩ | _ | _ | ⟨_ | _ | _ | _, _ | _⟩ | _ | _ | _ | _
    <;> rfl

/-- One instruction in the eight-byte wire layout. -/
structure Instruction where
  code : BitVec 16
  jt : BitVec 8
  jf : BitVec 8
  k : BitVec 32
  deriving DecidableEq, Repr

def Instruction.op (i : Instruction) : Option Opcode := Opcode.ofCode i.code

def Instruction.statement (o : Opcode) (k : BitVec 32) : Instruction := ⟨o.code, 0, 0, k⟩

def Instruction.jump (o : Opcode) (k : BitVec 32) (jt jf : BitVec 8) : Instruction :=
  ⟨o.code, jt, jf, k⟩

/-! ### Ancillary metadata -/

inductive Ancillary where
  | protocol | pkttype | ifindex | mark | queue | vlanTag | vlanTagPresent | vlanTpid
  deriving DecidableEq, Repr

/-- `SKF_AD_OFF`, the base of the ancillary window. -/
def skfAdOff : BitVec 32 := 0xfffff000

/-- `SKF_AD_MAX`, the size of the ancillary window. -/
def skfAdMax : BitVec 32 := 64

namespace Ancillary

def all : List Ancillary :=
  [.protocol, .pkttype, .ifindex, .mark, .queue, .vlanTag, .vlanTagPresent, .vlanTpid]

/-- The offset inside the ancillary window. -/
def offset : Ancillary → BitVec 32
  | .protocol => 0
  | .pkttype => 4
  | .ifindex => 8
  | .mark => 20
  | .queue => 24
  | .vlanTag => 44
  | .vlanTagPresent => 48
  | .vlanTpid => 60

/-- The aligned field offset inside the metadata record. -/
def metadataOffset : Ancillary → Nat
  | .protocol => 0
  | .ifindex => 4
  | .pkttype => 8
  | .mark => 12
  | .queue => 16
  | .vlanTag => 20
  | .vlanTagPresent => 24
  | .vlanTpid => 28

/-- The encoded `k` field of an ancillary load. -/
def encodedOffset (a : Ancillary) : BitVec 32 := skfAdOff + a.offset

end Ancillary

/-- Resolve an encoded `k` field to a supported ancillary. -/
def ancillaryFromOffset (offset : BitVec 32) : Option Ancillary :=
  Ancillary.all.find? fun a => offset = a.encodedOffset

/-- Whether a `k` field lies in the ancillary window. -/
def isAncillaryOffset (offset : BitVec 32) : Bool := (offset - skfAdOff).toNat < skfAdMax.toNat

/-- What the ancillary loads read. -/
structure PacketMetadata where
  protocol : BitVec 32
  ifindex : BitVec 32
  pkttype : BitVec 32
  mark : BitVec 32
  queue : BitVec 32
  vlanTag : BitVec 32
  vlanTagPresent : BitVec 32
  vlanTpid : BitVec 32
  deriving DecidableEq, Repr

/-- The value packet metadata supplies for an ancillary. -/
def Ancillary.read (a : Ancillary) (metadata : PacketMetadata) : BitVec 32 :=
  match a with
  | .protocol => metadata.protocol
  | .pkttype => metadata.pkttype
  | .ifindex => metadata.ifindex
  | .mark => metadata.mark
  | .queue => metadata.queue
  | .vlanTag => metadata.vlanTag
  | .vlanTagPresent => metadata.vlanTagPresent
  | .vlanTpid => metadata.vlanTpid

theorem isAncillaryOffset_of_some {offset : BitVec 32} {a : Ancillary}
    (h : ancillaryFromOffset offset = some a) : isAncillaryOffset offset = true := by
  have he : offset = a.encodedOffset := by simpa using List.find?_some h
  subst he
  cases a <;> rfl

/-! ### Inputs -/

/-- The trait `Input`: a length, loads at resolved offsets, and ancillary values. -/
structure Input where
  len : BitVec 32
  load : BitVec 32 → LoadWidth → Option (BitVec 32)
  ancillary : Ancillary → Option (BitVec 32) := fun _ => none

/-- `u32::try_from(len).unwrap_or(u32::MAX)`. -/
def clampLen (n : Nat) : BitVec 32 := if n < 2 ^ 32 then BitVec.ofNat 32 n else BitVec.allOnes 32

/-- `bytes.get(start..stop)` for `start ≤ stop`. -/
def getRange (bytes : List (BitVec 8)) (start stop : Nat) : Option (List (BitVec 8)) :=
  if stop ≤ bytes.length then some ((bytes.drop start).take (stop - start)) else none

def fromBeBytes : LoadWidth → List (BitVec 8) → Option (BitVec 32)
  | .byte, b₀ :: _ => some (b₀.setWidth 32)
  | .half, b₀ :: b₁ :: _ => some ((b₀ ++ b₁).setWidth 32)
  | .word, b₀ :: b₁ :: b₂ :: b₃ :: _ => some (b₀ ++ b₁ ++ b₂ ++ b₃)
  | _, _ => none

/-- The value of the bytes in the order of a little-endian host. -/
def fromNeBytes : LoadWidth → List (BitVec 8) → Option (BitVec 32)
  | .byte, b₀ :: _ => some (b₀.setWidth 32)
  | .half, b₀ :: b₁ :: _ => some ((b₁ ++ b₀).setWidth 32)
  | .word, b₀ :: b₁ :: b₂ :: b₃ :: _ => some (b₃ ++ b₂ ++ b₁ ++ b₀)
  | _, _ => none

/-- `impl Input for [u8]`. -/
def bytesInput (bytes : List (BitVec 8)) : Input where
  len := clampLen bytes.length
  load offset width :=
    (getRange bytes offset.toNat (offset.toNat + width.bytes)).bind (fromBeBytes width)

/-- `impl Input for PacketInput`. -/
def packetInput (bytes : List (BitVec 8)) (metadata : PacketMetadata) : Input where
  len := clampLen bytes.length
  load := (bytesInput bytes).load
  ancillary field := some (field.read metadata)

/-- `impl Input for NativeWordInput`, on a little-endian host. -/
def nativeWordInput (bytes : List (BitVec 8)) : Input where
  len := clampLen bytes.length
  load offset width :=
    if width = .word ∧ offset.toNat % 4 ≠ 0 then none
    else (getRange bytes offset.toNat (offset.toNat + width.bytes)).bind (fromNeBytes width)

end KernelAx.Cbpf

import KernelAx.X86.Machine

/-!
# X86 — Decode

Instruction decoding as the architecture defines it: an optional operand-size byte, an optional
REX byte whose bits extend the register fields, the opcode, ModRM with its displacement, and the
immediate. `decode p bs` reads the instruction whose first byte is the head of `bs`, at offset
`p` of the code, and returns it with the offset behind it. SIB and RIP-relative operands, and
the opcodes outside of the machine's subset, are `none`.
-/

namespace KernelAx.X86

/-! ### Fields -/

/-- The extension bits of a REX byte. -/
structure Rex where
  w : Bool
  r : Bool
  b : Bool
  deriving DecidableEq, Repr

def Rex.none : Rex := ⟨false, false, false⟩

/-- The REX bits `0100WRXB`; `X` only matters to SIB operands. -/
def Rex.ofByte (v : Byte) : Rex := ⟨v.getLsbD 3, v.getLsbD 2, v.getLsbD 0⟩

/-- The register with three-bit number `n` and extension bit `ext`. -/
def Reg.ofBits (ext : Bool) (n : Nat) : Reg :=
  match ext, n with
  | false, 0 => .rax | false, 1 => .rcx | false, 2 => .rdx | false, 3 => .rbx
  | false, 4 => .rsp | false, 5 => .rbp | false, 6 => .rsi | false, _ => .rdi
  | true, 0 => .r8 | true, 1 => .r9 | true, 2 => .r10 | true, 3 => .r11
  | true, 4 => .r12 | true, 5 => .r13 | true, 6 => .r14 | true, _ => .r15

/-- The value of four bytes, least significant first. -/
def le32 (b₀ b₁ b₂ b₃ : Byte) : BitVec 32 := b₃ ++ b₂ ++ b₁ ++ b₀

def imm32 : List Byte → Option (BitVec 32 × List Byte)
  | b₀ :: b₁ :: b₂ :: b₃ :: bs => some (le32 b₀ b₁ b₂ b₃, bs)
  | _ => none

/-- A decoded ModRM byte: the `reg` field, the operand, and the bytes it took. -/
structure ModRM where
  field : Nat
  rm : RM
  size : Nat
  deriving DecidableEq, Repr

def modRM (rex : Rex) : List Byte → Option (ModRM × List Byte)
  | [] => none
  | m :: bs =>
    let field := m.toNat / 8 % 8
    let low := m.toNat % 8
    let base := Reg.ofBits rex.b low
    match m.toNat / 64 with
    | 3 => some (⟨field, .reg base, 1⟩, bs)
    | 0 => if low = 4 ∨ low = 5 then none else some (⟨field, .mem base 0, 1⟩, bs)
    | 1 =>
      match bs with
      | d :: bs => if low = 4 then none else some (⟨field, .mem base (d.signExtend 64), 2⟩, bs)
      | [] => none
    | _ =>
      match imm32 bs with
      | some (d, bs) =>
        if low = 4 then none else some (⟨field, .mem base (d.signExtend 64), 5⟩, bs)
      | none => none

/-- The operation of an ALU opcode or of the group-1 field `/n`. -/
def aluOp : Nat → Option AluOp
  | 0 => some .add | 1 => some .or | 4 => some .and
  | 5 => some .sub | 6 => some .xor | 7 => some .cmp
  | _ => none

/-- The operation of the shift-group field `/n`. -/
def shiftOp : Nat → Option ShiftOp
  | 0 => some .rol | 4 => some .shl | 5 => some .shr
  | _ => none

def condition : Nat → Option Cc
  | 2 => some .b | 3 => some .ae | 4 => some .e | 5 => some .ne | 6 => some .be | 7 => some .a
  | _ => none

/-- The operands whose low byte is named alike with and without a REX byte: without one, the
register numbers 4 to 7 mean `ah`, `ch`, `dh` and `bh`. -/
def byteOperand : RM → Bool
  | .reg .rsp | .reg .rbp | .reg .rsi | .reg .rdi => false
  | _ => true

/-- The target of a branch with displacement `d` that ends at `next`. -/
def branchTarget (next : Nat) (d : BitVec 32) : Option Nat :=
  if 0 ≤ (next : Int) + d.toInt then some ((next : Int) + d.toInt).toNat else none

/-! ### Opcodes -/

/-- The two-byte opcodes `0f o`; `p` is the offset of `bs`. -/
def decode0F (n : Nat) (rex : Rex) (p o : Nat) (bs : List Byte) : Option (Instr × Nat) :=
  if o / 16 = 8 then do
    let cc ← condition (o % 16)
    let (d, _) ← imm32 bs
    let target ← branchTarget (p + 4) d
    some (.jcc cc target, p + 4)
  else if o / 8 = 0x19 ∧ n = 32 then some (.bswap (Reg.ofBits rex.b (o % 8)), p)
  else do
    let (m, _) ← modRM rex bs
    match o with
    | 0xae => if m.field = 5 ∧ m.rm = .reg (Reg.ofBits rex.b 0) then some (.lfence, p + 1) else none
    | 0xaf => some (.imul n (Reg.ofBits rex.r m.field) (.reg (Reg.ofBits rex.r m.field)) (.rm m.rm),
        p + m.size)
    | 0xb6 =>
      if byteOperand m.rm then some (.movzx 8 (Reg.ofBits rex.r m.field) m.rm, p + m.size) else none
    | 0xb7 => some (.movzx 16 (Reg.ofBits rex.r m.field) m.rm, p + m.size)
    | _ => none

/-- The one-byte opcodes that take a ModRM operand. -/
def decodeModRM (n : Nat) (rex : Rex) (p o : Nat) (bs : List Byte) : Option (Instr × Nat) := do
  let (m, bs) ← modRM rex bs
  let reg := Reg.ofBits rex.r m.field
  let p := p + m.size
  if o < 0x40 then do
    let op ← aluOp (o / 8)
    match o % 8 with
    | 1 => some (.alu op n m.rm (.rm (.reg reg)), p)
    | 3 => some (.alu op n (.reg reg) (.rm m.rm), p)
    | _ => none
  else
    match o, bs with
    | 0x69, bs => do
      let (v, _) ← imm32 bs
      some (.imul n reg m.rm (.imm (v.signExtend 64)), p + 4)
    | 0x81, bs => do
      let op ← aluOp m.field
      let (v, _) ← imm32 bs
      some (.alu op n m.rm (.imm (v.signExtend 64)), p + 4)
    | 0x83, v :: _ => do
      let op ← aluOp m.field
      some (.alu op n m.rm (.imm (v.signExtend 64)), p + 1)
    | 0x85, _ => some (.alu .test n m.rm (.rm (.reg reg)), p)
    | 0x89, _ => some (.mov n m.rm (.rm (.reg reg)), p)
    | 0x8b, _ => some (.mov n (.reg reg) (.rm m.rm), p)
    | 0xc1, v :: _ => do
      let op ← shiftOp m.field
      some (.shift op n m.rm (some v), p + 1)
    | 0xd3, _ => do
      let op ← shiftOp m.field
      some (.shift op n m.rm none, p)
    | 0xf6, v :: _ =>
      if m.field = 0 ∧ byteOperand m.rm then
        some (.alu .test 8 m.rm (.imm (v.signExtend 64)), p + 1)
      else none
    | 0xf7, _ =>
      if m.field = 3 then some (.neg n m.rm, p)
      else if m.field = 6 then some (.div n m.rm, p)
      else none
    | _, _ => none

/-- The instruction after the prefixes; `p` is the offset of `bs`, `n` the operand size. -/
def decodeOp (n : Nat) (rex : Rex) (p : Nat) (bs : List Byte) : Option (Instr × Nat) :=
  match bs with
  | [] => none
  | op :: bs =>
    let o := op.toNat
    let p := p + 1
    if o / 8 = 0xa then some (.push (Reg.ofBits rex.b (o % 8)), p)
    else if o / 8 = 0xb then some (.pop (Reg.ofBits rex.b (o % 8)), p)
    else if o < 0x40 ∧ o % 8 = 5 then do
      let op ← aluOp (o / 8)
      let (v, _) ← imm32 bs
      some (.alu op n (.reg .rax) (.imm (v.signExtend 64)), p + 4)
    else if o = 0xa9 then do
      let (v, _) ← imm32 bs
      some (.alu .test n (.reg .rax) (.imm (v.signExtend 64)), p + 4)
    else if o / 8 = 0x17 ∧ n = 32 then do
      let (v, _) ← imm32 bs
      some (.mov n (.reg (Reg.ofBits rex.b (o % 8))) (.imm (v.signExtend 64)), p + 4)
    else if o = 0xc3 then some (.ret, p)
    else if o = 0xe9 then do
      let (d, _) ← imm32 bs
      let target ← branchTarget (p + 4) d
      some (.jmp target, p + 4)
    else if o = 0x0f then
      match bs with
      | op :: bs => decode0F n rex (p + 1) op.toNat bs
      | [] => none
    else decodeModRM n rex p o bs

/-- Decode the instruction at the head of `bs`, which stands at offset `p`. -/
def decode (p : Nat) (bs : List Byte) : Option (Instr × Nat) :=
  match bs with
  | [] => none
  | v :: rest =>
    -- a 16-bit immediate would be two bytes long; only the immediate-free and byte-immediate
    -- shift forms are decoded behind the operand-size byte
    if v = 0x66 then
      match rest with
      | op :: _ => if op = 0xc1 ∨ op = 0xd3 then decodeOp 16 .none (p + 1) rest else none
      | [] => none
    else if v.toNat / 16 = 4 then
      decodeOp (if (Rex.ofByte v).w then 64 else 32) (Rex.ofByte v) (p + 1) rest
    else decodeOp 32 .none p bs

end KernelAx.X86

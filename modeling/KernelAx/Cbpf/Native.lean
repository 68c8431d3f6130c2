import KernelAx.X86.Run
import KernelAx.Cbpf.Profile

/-!
# Classic BPF — the restricted native decoder

The operations the translation validator reads native bytes as, and its strict decoder, arm by
arm. `NativeOp.meaning` says which machine instruction a reported operation names.
-/

namespace KernelAx.Cbpf

open X86 (Byte le32)

inductive Register where
  | eax | ecx | edx | esi | r13d | r14d | r15d | rbp | rsp | r12 | r13 | r14 | r15 | rdi
  deriving DecidableEq, Repr

inductive Width where
  | byte | half | word | qword
  deriving DecidableEq, Repr

/-- Operands; a displacement is an `i8`. -/
inductive Operand where
  | register (r : Register)
  | immediate (value : BitVec 32)
  | memory (base : Register) (displacement : BitVec 8)
  deriving DecidableEq, Repr

inductive BinaryKind where
  | add | sub | mul | or | and | xor
  deriving DecidableEq, Repr

inductive ShiftKind where
  | left | right
  deriving DecidableEq, Repr

inductive UnaryKind where
  | neg | bswap | rotateLeft
  deriving DecidableEq, Repr

inductive Condition where
  | below | equal | notEqual | above | aboveOrEqual
  deriving DecidableEq, Repr

/-- The instructions that the decoder accepts. -/
inductive NativeOp where
  | push (r : Register)
  | pop (r : Register)
  | mov (width : Width) (destination source : Operand)
  | load (width : Width) (destination base : Register) (displacement : BitVec 8)
  | binary (kind : BinaryKind) (width : Width) (destination source : Operand)
  | immediateMultiply (destination source : Register) (immediate : BitVec 32)
  | compare (width : Width) (left right : Operand)
  | test (width : Width) (left right : Operand)
  | shiftImmediate (kind : ShiftKind) (width : Width) (destination : Register) (count : BitVec 8)
  | shiftRegister (kind : ShiftKind) (width : Width) (destination : Register)
  | unary (kind : UnaryKind) (width : Width) (destination : Register) (immediate : BitVec 8)
  | divide (width : Width) (divisor : Operand)
  | speculationBarrier
  | conditionalJump (condition : Condition) (target : Nat)
  | jump (target : Nat)
  | return
  deriving DecidableEq, Repr

/-! ### The decoder

`p` is the checker's position, the offset of the head of the remaining bytes; a decoded operation
comes with the position behind it. -/

/-- A decoded operation and the position behind it. -/
abbrev Decoded := Option (NativeOp × Nat)

/-- `imm32`, followed by the rest of the operation. -/
def withImm32 (p : Nat) (bs : List Byte) (f : BitVec 32 → NativeOp) : Decoded :=
  match bs with
  | b₀ :: b₁ :: b₂ :: b₃ :: _ => some (f (le32 b₀ b₁ b₂ b₃), p + 4)
  | _ => none

/-- A byte operand, followed by the rest of the operation. -/
def withByte (p : Nat) (bs : List Byte) (f : Byte → NativeOp) : Decoded :=
  match bs with
  | b :: _ => some (f b, p + 1)
  | [] => none

/-- `relative_target`: the displacement counts from the position behind it. -/
def relativeTarget (position : Nat) (displacement : BitVec 32) : Option Nat :=
  if 0 ≤ displacement.toInt then some (position + displacement.toInt.toNat)
  else if displacement.toInt.natAbs ≤ position then some (position - displacement.toInt.natAbs)
  else none

def withTarget (p : Nat) (bs : List Byte) (f : Nat → NativeOp) : Decoded :=
  match bs with
  | b₀ :: b₁ :: b₂ :: b₃ :: _ =>
    (relativeTarget (p + 4) (le32 b₀ b₁ b₂ b₃)).map fun t => (f t, p + 4)
  | _ => none

/-- `mov(width, register(d), register(s))`. -/
def movReg (width : Width) (destination source : Register) : NativeOp :=
  .mov width (.register destination) (.register source)

def movImm (destination : Register) (value : BitVec 32) : NativeOp :=
  .mov .word (.register destination) (.immediate value)

def binaryReg (kind : BinaryKind) (width : Width) (destination source : Register) : NativeOp :=
  .binary kind width (.register destination) (.register source)

def binaryImm (kind : BinaryKind) (width : Width) (destination : Register) (value : BitVec 32) :
    NativeOp :=
  .binary kind width (.register destination) (.immediate value)

def binaryXor (destination source : Register) : NativeOp :=
  binaryReg .xor .word destination source

/-- `binary_immediate`: the short forms on `eax`. -/
def binaryImmediate (kind : BinaryKind) (value : BitVec 32) : NativeOp :=
  binaryImm kind .word .eax value

def decodeRexB (p : Nat) (bs : List Byte) : Decoded :=
  match bs with
  | [] => none
  | op :: bs =>
    let p := p + 1
    match op with
    | 0x54#8 => some (.push .r12, p)
    | 0x55#8 => some (.push .r13, p)
    | 0x56#8 => some (.push .r14, p)
    | 0x57#8 => some (.push .r15, p)
    | 0x5c#8 => some (.pop .r12, p)
    | 0x5d#8 => some (.pop .r13, p)
    | 0x5e#8 => some (.pop .r14, p)
    | 0x5f#8 => some (.pop .r15, p)
    | 0x81#8 =>
      match bs with
      | 0xc6#8 :: bs => withImm32 (p + 1) bs (binaryImm .add .word .r14d)
      | _ => none
    | 0x83#8 =>
      match bs with
      | 0xe6#8 :: bs =>
        withByte (p + 1) bs fun b => binaryImm .and .word .r14d (b.setWidth 32)
      | 0xef#8 :: bs =>
        withByte (p + 1) bs fun b => binaryImm .sub .word .r15d (b.setWidth 32)
      | 0xfd#8 :: bs =>
        withByte (p + 1) bs fun b =>
          .compare .word (.register .r13d) (.immediate (b.setWidth 32))
      | _ => none
    | 0x89#8 =>
      match bs with
      | 0xce#8 :: _ => some (movReg .word .r14d .ecx, p + 1)
      | 0xcf#8 :: _ => some (movReg .word .r15d .ecx, p + 1)
      | 0xf5#8 :: _ => some (movReg .word .r13d .esi, p + 1)
      | _ => none
    | 0x8b#8 =>
      match bs with
      | 0x06#8 :: _ => some (.load .word .eax .r14 0, p + 1)
      | _ => none
    | 0x0f#8 =>
      match bs with
      | 0xb6#8 :: 0x06#8 :: _ => some (.load .byte .eax .r14 0, p + 2)
      | 0xb6#8 :: 0x0e#8 :: _ => some (.load .byte .ecx .r14 0, p + 2)
      | 0xb7#8 :: 0x06#8 :: _ => some (.load .half .eax .r14 0, p + 2)
      | _ => none
    | 0xf6#8 =>
      match bs with
      | 0xc6#8 :: 0x03#8 :: _ => some (.test .byte (.register .r14d) (.immediate 3), p + 2)
      | _ => none
    | 0xf7#8 =>
      match bs with
      | 0xf6#8 :: _ => some (.divide .word (.register .r14d), p + 1)
      | _ => none
    | 0xbe#8 => withImm32 p bs (movImm .r14d)
    | _ => none

def decodeRexR (p : Nat) (bs : List Byte) : Decoded :=
  match bs with
  | 0x8b#8 :: 0x6f#8 :: bs => withByte (p + 2) bs fun b => .load .word .r13d .rdi b
  | 0x89#8 :: 0xe8#8 :: _ => some (movReg .word .eax .r13d, p + 2)
  | 0x89#8 :: 0xe9#8 :: _ => some (movReg .word .ecx .r13d, p + 2)
  | 0x89#8 :: 0xf1#8 :: _ => some (movReg .word .ecx .r14d, p + 2)
  | 0x89#8 :: 0xf9#8 :: _ => some (movReg .word .ecx .r15d, p + 2)
  | _ => none

def decodeRexWR (p : Nat) (bs : List Byte) : Decoded :=
  match bs with
  | 0x8b#8 :: 0x27#8 :: _ => some (.load .qword .r12 .rdi 0, p + 2)
  | _ => none

def decodeRexRB (p : Nat) (bs : List Byte) : Decoded :=
  match bs with
  | 0x89#8 :: 0xef#8 :: _ => some (movReg .word .r15d .r13d, p + 2)
  | 0x39#8 :: 0xf7#8 :: _ => some (.compare .word (.register .r15d) (.register .r14d), p + 2)
  | _ => none

def decodeRexW (p : Nat) (bs : List Byte) : Decoded :=
  match bs with
  | 0x83#8 :: 0xec#8 :: bs =>
    withByte (p + 2) bs fun b => binaryImm .sub .qword .rsp (b.setWidth 32)
  | 0x83#8 :: 0xc4#8 :: bs =>
    withByte (p + 2) bs fun b => binaryImm .add .qword .rsp (b.setWidth 32)
  | 0x89#8 :: 0xe5#8 :: _ => some (movReg .qword .rbp .rsp, p + 2)
  | _ => none

def decodeRexWB (p : Nat) (bs : List Byte) : Decoded :=
  match bs with
  | 0x89#8 :: 0xfc#8 :: _ => some (movReg .qword .r12 .rdi, p + 2)
  | _ => none

def decodeRexWRB (p : Nat) (bs : List Byte) : Decoded :=
  match bs with
  | 0x01#8 :: 0xe6#8 :: _ => some (binaryReg .add .qword .r14 .r12, p + 2)
  | _ => none

def decode0F (p : Nat) (bs : List Byte) : Decoded :=
  match bs with
  | [] => none
  | op :: bs =>
    let p := p + 1
    match op with
    | 0xae#8 =>
      match bs with
      | 0xe8#8 :: _ => some (.speculationBarrier, p + 1)
      | _ => none
    | 0x82#8 => withTarget p bs (.conditionalJump .below)
    | 0x83#8 => withTarget p bs (.conditionalJump .aboveOrEqual)
    | 0x84#8 => withTarget p bs (.conditionalJump .equal)
    | 0x85#8 => withTarget p bs (.conditionalJump .notEqual)
    | 0x87#8 => withTarget p bs (.conditionalJump .above)
    | 0xaf#8 =>
      match bs with
      | 0xc1#8 :: _ => some (binaryReg .mul .word .eax .ecx, p + 1)
      | _ => none
    | 0xc8#8 => some (.unary .bswap .word .eax 0, p)
    | _ => none

def decodeBinaryRegister (p : Nat) (bs : List Byte) (kind : BinaryKind) : Decoded :=
  match bs with
  | 0xc8#8 :: _ => some (binaryReg kind .word .eax .ecx, p + 1)
  | _ => none

def decodeMoveRegisterOrScratch (p : Nat) (bs : List Byte) : Decoded :=
  match bs with
  | 0xc1#8 :: _ => some (movReg .word .ecx .eax, p + 1)
  | 0xc8#8 :: _ => some (movReg .word .eax .ecx, p + 1)
  | 0xd0#8 :: _ => some (movReg .word .eax .edx, p + 1)
  | 0x45#8 :: bs => withByte (p + 1) bs fun b => .mov .word (.memory .rbp b) (.register .eax)
  | 0x4d#8 :: bs => withByte (p + 1) bs fun b => .mov .word (.memory .rbp b) (.register .ecx)
  | _ => none

/-- `decode_operation`: the operation at the head of the bytes. -/
def decodeOperation (p : Nat) (bs : List Byte) : Decoded :=
  match bs with
  | [] => none
  | first :: bs =>
    let p := p + 1
    match first with
    | 0x55#8 => some (.push .rbp, p)
    | 0x5d#8 => some (.pop .rbp, p)
    | 0x41#8 => decodeRexB p bs
    | 0x44#8 => decodeRexR p bs
    | 0x45#8 => decodeRexRB p bs
    | 0x48#8 => decodeRexW p bs
    | 0x49#8 => decodeRexWB p bs
    | 0x4c#8 => decodeRexWR p bs
    | 0x4d#8 => decodeRexWRB p bs
    | 0x0f#8 => decode0F p bs
    | 0x31#8 =>
      match bs with
      | 0xc0#8 :: _ => some (binaryXor .eax .eax, p + 1)
      | 0xc8#8 :: _ => some (binaryXor .eax .ecx, p + 1)
      | 0xc9#8 :: _ => some (binaryXor .ecx .ecx, p + 1)
      | 0xd2#8 :: _ => some (binaryXor .edx .edx, p + 1)
      | _ => none
    | 0x01#8 => decodeBinaryRegister p bs .add
    | 0x09#8 => decodeBinaryRegister p bs .or
    | 0x21#8 => decodeBinaryRegister p bs .and
    | 0x29#8 => decodeBinaryRegister p bs .sub
    | 0x39#8 =>
      match bs with
      | 0xc8#8 :: _ => some (.compare .word (.register .eax) (.register .ecx), p + 1)
      | _ => none
    | 0x05#8 => withImm32 p bs (binaryImmediate .add)
    | 0x0d#8 => withImm32 p bs (binaryImmediate .or)
    | 0x25#8 => withImm32 p bs (binaryImmediate .and)
    | 0x2d#8 => withImm32 p bs (binaryImmediate .sub)
    | 0x35#8 => withImm32 p bs (binaryImmediate .xor)
    | 0x3d#8 => withImm32 p bs fun v => .compare .word (.register .eax) (.immediate v)
    | 0x66#8 =>
      match bs with
      | 0xc1#8 :: 0xc0#8 :: 0x08#8 :: _ => some (.unary .rotateLeft .half .eax 8, p + 3)
      | _ => none
    | 0x69#8 =>
      match bs with
      | 0xc0#8 :: bs => withImm32 (p + 1) bs (.immediateMultiply .eax .eax)
      | _ => none
    | 0x83#8 =>
      match bs with
      | 0xe0#8 :: 0x0f#8 :: _ => some (binaryImm .and .word .eax 0x0f, p + 2)
      | 0xe1#8 :: 0x0f#8 :: _ => some (binaryImm .and .word .ecx 0x0f, p + 2)
      | _ => none
    | 0x85#8 =>
      match bs with
      | 0xc8#8 :: _ => some (.test .word (.register .eax) (.register .ecx), p + 1)
      | 0xc9#8 :: _ => some (.test .word (.register .ecx) (.register .ecx), p + 1)
      | _ => none
    | 0x89#8 => decodeMoveRegisterOrScratch p bs
    | 0x8b#8 =>
      match bs with
      | 0x06#8 :: _ => some (.load .word .eax .r14 0, p + 1)
      | 0x47#8 :: bs => withByte (p + 1) bs fun b => .load .word .eax .rdi b
      | 0x45#8 :: bs => withByte (p + 1) bs fun b => .mov .word (.register .eax) (.memory .rbp b)
      | 0x4d#8 :: bs => withByte (p + 1) bs fun b => .mov .word (.register .ecx) (.memory .rbp b)
      | _ => none
    | 0xa9#8 => withImm32 p bs fun v => .test .word (.register .eax) (.immediate v)
    | 0xb8#8 => withImm32 p bs (movImm .eax)
    | 0xb9#8 => withImm32 p bs (movImm .ecx)
    | 0xc1#8 =>
      match bs with
      | 0xe0#8 :: bs => withByte (p + 1) bs (.shiftImmediate .left .word .eax)
      | 0xe1#8 :: bs => withByte (p + 1) bs (.shiftImmediate .left .word .ecx)
      | 0xe8#8 :: bs => withByte (p + 1) bs (.shiftImmediate .right .word .eax)
      | _ => none
    | 0xd3#8 =>
      match bs with
      | 0xe0#8 :: _ => some (.shiftRegister .left .word .eax, p + 1)
      | 0xe8#8 :: _ => some (.shiftRegister .right .word .eax, p + 1)
      | _ => none
    | 0xe9#8 => withTarget p bs .jump
    | 0xf7#8 =>
      match bs with
      | 0xd8#8 :: _ => some (.unary .neg .word .eax 0, p + 1)
      | 0xf1#8 :: _ => some (.divide .word (.register .ecx), p + 1)
      | _ => none
    | 0xc3#8 => some (.return, p)
    | _ => none

/-! ### What a reported operation names -/

def Register.toReg : Register → X86.Reg
  | .eax => .rax | .ecx => .rcx | .edx => .rdx | .esi => .rsi
  | .r13d | .r13 => .r13 | .r14d | .r14 => .r14 | .r15d | .r15 => .r15
  | .rbp => .rbp | .rsp => .rsp | .r12 => .r12 | .rdi => .rdi

def Width.bits : Width → Nat
  | .byte => 8 | .half => 16 | .word => 32 | .qword => 64

def Operand.toRM : Operand → Option X86.RM
  | .register r => some (.reg r.toReg)
  | .memory base displacement => some (.mem base.toReg (displacement.signExtend 64))
  | .immediate _ => none

def Operand.toSrc : Operand → X86.Src
  | .register r => .rm (.reg r.toReg)
  | .memory base displacement => .rm (.mem base.toReg (displacement.signExtend 64))
  | .immediate value => .imm (value.signExtend 64)

def ShiftKind.toOp : ShiftKind → X86.ShiftOp
  | .left => .shl | .right => .shr

def Condition.toCc : Condition → X86.Cc
  | .below => .b | .equal => .e | .notEqual => .ne | .above => .a | .aboveOrEqual => .ae

/-- The machine instruction an operation of the decoder names. -/
def NativeOp.meaning : NativeOp → Option X86.Instr
  | .push r => some (.push r.toReg)
  | .pop r => some (.pop r.toReg)
  | .mov width destination source =>
    destination.toRM.map fun d => .mov width.bits d source.toSrc
  | .load width destination base displacement =>
    let cell := X86.RM.mem base.toReg (displacement.signExtend 64)
    match width with
    | .byte | .half => some (.movzx width.bits destination.toReg cell)
    | .word | .qword => some (.mov width.bits (.reg destination.toReg) (.rm cell))
  | .binary kind width destination source =>
    match kind with
    | .add => destination.toRM.map fun d => .alu .add width.bits d source.toSrc
    | .sub => destination.toRM.map fun d => .alu .sub width.bits d source.toSrc
    | .or => destination.toRM.map fun d => .alu .or width.bits d source.toSrc
    | .and => destination.toRM.map fun d => .alu .and width.bits d source.toSrc
    | .xor => destination.toRM.map fun d => .alu .xor width.bits d source.toSrc
    | .mul =>
      match destination with
      | .register r => some (.imul width.bits r.toReg (.reg r.toReg) source.toSrc)
      | _ => none
  | .immediateMultiply destination source immediate =>
    some (.imul 32 destination.toReg (.reg source.toReg) (.imm (immediate.signExtend 64)))
  | .compare width left right => left.toRM.map fun d => .alu .cmp width.bits d right.toSrc
  | .test width left right => left.toRM.map fun d => .alu .test width.bits d right.toSrc
  | .shiftImmediate kind width destination count =>
    some (.shift kind.toOp width.bits (.reg destination.toReg) (some count))
  | .shiftRegister kind width destination =>
    some (.shift kind.toOp width.bits (.reg destination.toReg) none)
  | .unary kind width destination immediate =>
    match kind with
    | .neg => some (.neg width.bits (.reg destination.toReg))
    | .bswap => some (.bswap destination.toReg)
    | .rotateLeft => some (.shift .rol width.bits (.reg destination.toReg) (some immediate))
  | .divide width divisor => divisor.toRM.map fun d => .div width.bits d
  | .speculationBarrier => some .lfence
  | .conditionalJump condition target => some (.jcc condition.toCc target)
  | .jump target => some (.jmp target)
  | .return => some .ret

end KernelAx.Cbpf

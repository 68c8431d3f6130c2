import KernelAx.X86.Memory

/-!
# X86 — Machine

The architectural state and the meaning of a subset of the x86-64 instructions: moves, the ALU
group, multiplication, division, shifts, byte swaps, stack operations, direct branches, `lfence`
and `ret`, over 8-, 16-, 32- and 64-bit operands.

* A write to a 32-bit register clears the upper half; narrower writes keep the rest.
* The carry and zero flags are `none` where an instruction leaves them undefined, or where this
  model does not follow them; a branch on such a flag is stuck, so no result can depend on it.
* `exec` is `none` on a fault: a zero divisor, a quotient that does not fit, an undefined flag.
* `accesses` lists the memory an instruction touches, apart from the fetch.
-/

namespace KernelAx.X86

inductive Reg where
  | rax | rcx | rdx | rbx | rsp | rbp | rsi | rdi
  | r8 | r9 | r10 | r11 | r12 | r13 | r14 | r15
  deriving DecidableEq, Repr

/-- A register or a memory operand `[base + disp]`. -/
inductive RM where
  | reg (r : Reg)
  | mem (base : Reg) (disp : BitVec 64)
  deriving DecidableEq, Repr

/-- A source operand; an immediate is kept sign-extended to 64 bits. -/
inductive Src where
  | rm (o : RM)
  | imm (v : BitVec 64)
  deriving DecidableEq, Repr

inductive AluOp where
  | add | or | and | sub | xor | cmp | test
  deriving DecidableEq, Repr

inductive ShiftOp where
  | rol | shl | shr
  deriving DecidableEq, Repr

/-- Condition codes that read only the carry and the zero flag. -/
inductive Cc where
  | b | ae | e | ne | be | a
  deriving DecidableEq, Repr

/-- Instructions; `n` is the operand size in bits, branch targets are offsets into the code. -/
inductive Instr where
  | push (r : Reg)
  | pop (r : Reg)
  | mov (n : Nat) (dst : RM) (src : Src)
  /-- Zero-extend an `n`-bit operand to 32 bits. -/
  | movzx (n : Nat) (dst : Reg) (src : RM)
  | alu (op : AluOp) (n : Nat) (dst : RM) (src : Src)
  | imul (n : Nat) (dst : Reg) (lhs : RM) (rhs : Src)
  /-- Unsigned division of `edx:eax` (`n = 32`). -/
  | div (n : Nat) (src : RM)
  | neg (n : Nat) (dst : RM)
  /-- Shift or rotate by a constant, or by `cl`. -/
  | shift (op : ShiftOp) (n : Nat) (dst : RM) (count : Option Byte)
  | bswap (r : Reg)
  | jmp (target : Nat)
  | jcc (cc : Cc) (target : Nat)
  | lfence
  | ret
  deriving DecidableEq, Repr

/-- Where control is: at an offset of the code, or back at an address of the caller. -/
inductive Ip where
  | code (offset : Nat)
  | outside (addr : Addr)
  deriving DecidableEq, Repr

/-- Registers, memory and the flags that are defined; an undefined flag is `none`. -/
structure State where
  regs : Reg → BitVec 64
  mem : Mem
  cf : Option Bool
  zf : Option Bool
  ip : Ip

/-! ### Operands -/

/-- The new content of a register after an `n`-bit write. -/
def merge (n : Nat) (old : BitVec 64) (v : BitVec n) : BitVec 64 :=
  if n < 32 then (old >>> n) <<< n ||| v.setWidth 64 else v.setWidth 64

namespace State

def reg (s : State) (n : Nat) (r : Reg) : BitVec n := (s.regs r).setWidth n

def setReg (s : State) (n : Nat) (r : Reg) (v : BitVec n) : State :=
  { s with regs := Function.update s.regs r (merge n (s.regs r) v) }

def get (s : State) (n : Nat) : RM → BitVec n
  | .reg r => s.reg n r
  | .mem base disp => BitVec.ofNat n (readLE s.mem (s.regs base + disp) (n / 8))

def put (s : State) (n : Nat) : RM → BitVec n → State
  | .reg r, v => s.setReg n r v
  | .mem base disp, v =>
    { s with mem := writeLE s.mem (s.regs base + disp) (n / 8) v.toNat }

def src (s : State) (n : Nat) : Src → BitVec n
  | .rm o => s.get n o
  | .imm v => v.setWidth n

def flags (s : State) (cf zf : Option Bool) : State := { s with cf := cf, zf := zf }

def goto (s : State) (offset : Nat) : State := { s with ip := .code offset }

end State

/-! ### Instructions -/

/-- The result of an ALU operation and its carry. -/
def AluOp.eval {n : Nat} (op : AluOp) (x y : BitVec n) : BitVec n × Bool :=
  match op with
  | .add => (x + y, decide (2 ^ n ≤ x.toNat + y.toNat))
  | .sub | .cmp => (x - y, decide (x.toNat < y.toNat))
  | .or => (x ||| y, false)
  | .and | .test => (x &&& y, false)
  | .xor => (x ^^^ y, false)

/-- `cmp` and `test` only set the flags. -/
def AluOp.writes : AluOp → Bool
  | .cmp | .test => false
  | _ => true

def ShiftOp.eval {n : Nat} (op : ShiftOp) (x : BitVec n) (count : Nat) : BitVec n :=
  match op with
  | .rol => x.rotateLeft count
  | .shl => x <<< count
  | .shr => x >>> count

def Cc.eval (cc : Cc) (s : State) : Option Bool :=
  match cc with
  | .b => s.cf
  | .ae => s.cf.map (!·)
  | .e => s.zf
  | .ne => s.zf.map (!·)
  | .be => s.cf.bind fun c => s.zf.map (c || ·)
  | .a => s.cf.bind fun c => s.zf.map fun z => !c && !z

def byteSwap (v : BitVec 32) : BitVec 32 :=
  v.extractLsb' 0 8 ++ v.extractLsb' 8 8 ++ v.extractLsb' 16 8 ++ v.extractLsb' 24 8

/-- Execute one instruction whose successor in the code is `next`. -/
def exec (i : Instr) (next : Nat) (s : State) : Option State :=
  match i with
  | .push r =>
    let sp := s.regs .rsp - 8
    some { s with
      mem := writeLE s.mem sp 8 (s.regs r).toNat
      regs := Function.update s.regs .rsp sp
      ip := .code next }
  | .pop r =>
    let v := BitVec.ofNat 64 (readLE s.mem (s.regs .rsp) 8)
    some { s with
      regs := Function.update (Function.update s.regs .rsp (s.regs .rsp + 8)) r v
      ip := .code next }
  | .mov n dst src => some ((s.put n dst (s.src n src)).goto next)
  | .movzx n dst src => some ((s.setReg 32 dst ((s.get n src).setWidth 32)).goto next)
  | .alu op n dst src =>
    let r := op.eval (s.get n dst) (s.src n src)
    let s' := if op.writes then s.put n dst r.1 else s
    some ((s'.flags (some r.2) (some (r.1 == 0))).goto next)
  | .imul n dst lhs rhs =>
    some (((s.setReg n dst (s.get n lhs * s.src n rhs)).flags none none).goto next)
  | .div n src =>
    let d := (s.reg n .rdx).toNat * 2 ^ n + (s.reg n .rax).toNat
    let v := (s.get n src).toNat
    if v = 0 ∨ 2 ^ n ≤ d / v then none
    else
      some ((((s.setReg n .rax (BitVec.ofNat n (d / v))).setReg n .rdx
        (BitVec.ofNat n (d % v))).flags none none).goto next)
  | .neg n dst =>
    let v := s.get n dst
    some (((s.put n dst (-v)).flags (some (v != 0)) (some (v == 0))).goto next)
  | .shift op n dst count =>
    let c := (count.getD (s.reg 8 .rcx)).toNat % (if n = 64 then 64 else 32)
    some (((s.put n dst (op.eval (s.get n dst) c)).flags none none).goto next)
  | .bswap r => some ((s.setReg 32 r (byteSwap (s.reg 32 r))).goto next)
  | .jmp target => some (s.goto target)
  | .jcc cc target => (cc.eval s).map fun taken => s.goto (if taken then target else next)
  | .lfence => some (s.goto next)
  | .ret =>
    some { s with
      regs := Function.update s.regs .rsp (s.regs .rsp + 8)
      ip := .outside (BitVec.ofNat 64 (readLE s.mem (s.regs .rsp) 8)) }

/-! ### Memory traffic -/

/-- Operand loads and stores, and the implicit accesses of `push`, `pop` and `ret`. -/
inductive AccessKind where
  | load | store | push | pop
  deriving DecidableEq, Repr

/-- A memory access of an instruction. -/
structure Access where
  kind : AccessKind
  addr : Addr
  size : Nat
  deriving DecidableEq, Repr

/-- The access an operand stands for, if it is in memory. -/
def RM.access (o : RM) (kind : AccessKind) (n : Nat) (s : State) : List Access :=
  match o with
  | .reg _ => []
  | .mem base disp => [⟨kind, s.regs base + disp, n / 8⟩]

def Src.access (o : Src) (n : Nat) (s : State) : List Access :=
  match o with
  | .rm o => o.access .load n s
  | .imm _ => []

def accesses (i : Instr) (s : State) : List Access :=
  match i with
  | .push _ => [⟨.push, s.regs .rsp - 8, 8⟩]
  | .pop _ | .ret => [⟨.pop, s.regs .rsp, 8⟩]
  | .mov n dst src => src.access n s ++ dst.access .store n s
  | .movzx n _ src => src.access .load n s
  | .alu op n dst src =>
    src.access n s ++ dst.access .load n s ++ (if op.writes then dst.access .store n s else [])
  | .imul n _ lhs rhs => lhs.access .load n s ++ rhs.access n s
  | .div n src => src.access .load n s
  | .neg n dst | .shift _ n dst _ => dst.access .load n s ++ dst.access .store n s
  | .bswap _ | .jmp _ | .jcc _ _ | .lfence => []

end KernelAx.X86

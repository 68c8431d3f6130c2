import KernelAx.X86.Run

/-!
# X86 — Symbolic execution

How the observations of a state (registers, memory, flags, instruction pointer) see each state
update, as simplification rules, so that a state reached by a straight line of code can be read
off without unfolding the machine. `Agrees` is the frame condition of a piece of code: memory
and all registers outside a list are unchanged.
-/

namespace KernelAx.X86

/-! ### State updates -/

namespace State

variable (s : State)

@[simp] theorem goto_regs (p : Nat) : (s.goto p).regs = s.regs := rfl
@[simp] theorem goto_reg (p n : Nat) (r : Reg) : (s.goto p).reg n r = s.reg n r := rfl
@[simp] theorem goto_mem (p : Nat) : (s.goto p).mem = s.mem := rfl
@[simp] theorem goto_cf (p : Nat) : (s.goto p).cf = s.cf := rfl
@[simp] theorem goto_zf (p : Nat) : (s.goto p).zf = s.zf := rfl
@[simp] theorem goto_ip (p : Nat) : (s.goto p).ip = .code p := rfl

section

variable (c z : Option Bool)
include c z

@[simp] theorem flags_regs : (s.flags c z).regs = s.regs := rfl
@[simp] theorem flags_reg (n : Nat) (r : Reg) :
    (s.flags c z).reg n r = s.reg n r := rfl
@[simp] theorem flags_mem : (s.flags c z).mem = s.mem := rfl
@[simp] theorem flags_cf : (s.flags c z).cf = c := rfl
@[simp] theorem flags_zf : (s.flags c z).zf = z := rfl
@[simp] theorem flags_ip : (s.flags c z).ip = s.ip := rfl

end

@[simp] theorem setReg_mem (n : Nat) (r : Reg) (v : BitVec n) : (s.setReg n r v).mem = s.mem := rfl
@[simp] theorem setReg_cf (n : Nat) (r : Reg) (v : BitVec n) : (s.setReg n r v).cf = s.cf := rfl
@[simp] theorem setReg_zf (n : Nat) (r : Reg) (v : BitVec n) : (s.setReg n r v).zf = s.zf := rfl
@[simp] theorem setReg_ip (n : Nat) (r : Reg) (v : BitVec n) : (s.setReg n r v).ip = s.ip := rfl

variable {r : Reg}

@[simp] theorem setReg_regs_of_ne {r' : Reg} (h : r' ≠ r) (n : Nat) (v : BitVec n) :
    (s.setReg n r v).regs r' = s.regs r' :=
  Function.update_of_ne h _ _

@[simp] theorem setReg_reg_of_ne {r' : Reg} (h : r' ≠ r) (n m : Nat) (v : BitVec n) :
    (s.setReg n r v).reg m r' = s.reg m r' :=
  congrArg (BitVec.setWidth m) (setReg_regs_of_ne s h n v)

@[simp] theorem setReg32_regs (r : Reg) (v : BitVec 32) :
    (s.setReg 32 r v).regs r = v.setWidth 64 := by
  simp [setReg, merge]

@[simp] theorem setReg64_regs (r : Reg) (v : BitVec 64) : (s.setReg 64 r v).regs r = v := by
  simp [setReg, merge]

@[simp] theorem setReg32_reg32 (r : Reg) (v : BitVec 32) : (s.setReg 32 r v).reg 32 r = v := by
  simp [reg]

@[simp] theorem setReg32_reg8 (r : Reg) (v : BitVec 32) :
    (s.setReg 32 r v).reg 8 r = v.setWidth 8 := by
  simp [reg]

@[simp] theorem setReg32_reg16 (r : Reg) (v : BitVec 32) :
    (s.setReg 32 r v).reg 16 r = v.setWidth 16 := by
  simp [reg]

/-- A 16-bit write over a zero-extended 16-bit value is the new value, zero-extended. -/
theorem setReg16_reg32 {w : BitVec 16} (h : s.reg 32 r = w.setWidth 32) (v : BitVec 16) :
    (s.setReg 16 r v).reg 32 r = v.setWidth 32 := by
  apply BitVec.eq_of_getLsbD_eq
  intro i hi
  have hi64 : i < 64 := by omega
  by_cases hlt : i < 16
  · simp [reg, setReg, merge, hlt, hi]
  · have hbit : (s.regs r)[i] = false := by
      have := congrArg (fun v => BitVec.getLsbD v i) h
      rw [← BitVec.getLsbD_eq_getElem]
      simpa [reg, hi, BitVec.getLsbD_of_ge w i (by omega)] using this
    simp [reg, setReg, merge, hlt, hi, hi64, show 16 + (i - 16) = i by omega, hbit]

@[simp] theorem reg_64 (r : Reg) : s.reg 64 r = s.regs r := BitVec.setWidth_eq _

theorem reg_def (n : Nat) (r : Reg) : s.reg n r = (s.regs r).setWidth n := rfl

@[simp] theorem get_reg (n : Nat) (r : Reg) : s.get n (.reg r) = s.reg n r := rfl
@[simp] theorem put_reg (n : Nat) (r : Reg) (v : BitVec n) : s.put n (.reg r) v = s.setReg n r v :=
  rfl
@[simp] theorem src_rm (n : Nat) (o : RM) : s.src n (.rm o) = s.get n o := rfl
@[simp] theorem src_imm (n : Nat) (v : BitVec 64) : s.src n (.imm v) = v.setWidth n := rfl

end State

@[simp] theorem setWidth_signExtend_32 (v : BitVec 32) : (v.signExtend 64).setWidth 32 = v := by
  apply BitVec.eq_of_getLsbD_eq
  intro i hi
  simp only [BitVec.getLsbD_setWidth, BitVec.getLsbD_signExtend, hi, show i < 64 by omega,
    decide_true, Bool.true_and, if_true]

/-! ### Frames -/

/-- `s'` has the memory of `s` and its registers, except those in `rs`. -/
structure Agrees (rs : List Reg) (s s' : State) : Prop where
  mem : s'.mem = s.mem
  regs : ∀ r, r ∉ rs → s'.regs r = s.regs r

theorem Agrees.refl (rs : List Reg) (s : State) : Agrees rs s s := ⟨rfl, fun _ _ => rfl⟩

variable {rs : List Reg} {s : State}

/-- The registers that two stretches of code write. -/
theorem Agrees.trans {s₁ s₂ s₃ : State} (h : Agrees rs s₁ s₂) (h' : Agrees rs s₂ s₃) :
    Agrees rs s₁ s₃ :=
  ⟨h'.mem.trans h.mem, fun r hr => (h'.regs r hr).trans (h.regs r hr)⟩

theorem Agrees.mono {rs' : List Reg} {s' : State} (h : Agrees rs s s') (hsub : rs ⊆ rs') :
    Agrees rs' s s' :=
  ⟨h.mem, fun r hr => h.regs r fun hr' => hr (hsub hr')⟩

theorem Agrees.reg {s' : State} (h : Agrees rs s s') (n : Nat) {r : Reg} (hr : r ∉ rs) :
    s'.reg n r = s.reg n r :=
  congrArg (BitVec.setWidth n) (h.regs r hr)

/-! ### Flags -/

/-- Whether the flags of a 32-bit comparison of `x` with `y` satisfy a condition. -/
theorem Cc.eval_cmp {x y : BitVec 32} (hc : s.cf = some (decide (x.toNat < y.toNat)))
    (hz : s.zf = some (x - y == 0)) :
    Cc.b.eval s = some (decide (x.toNat < y.toNat)) ∧
    Cc.ae.eval s = some (decide (y.toNat ≤ x.toNat)) ∧
    Cc.e.eval s = some (decide (x = y)) ∧
    Cc.a.eval s = some (decide (y.toNat < x.toNat)) := by
  have hzero : (x - y == 0) = decide (x = y) := by
    by_cases h : x = y
    · subst h
      simp
    · have : ¬ x - y = 0#32 := fun h0 => h (by bv_omega)
      simp [h, this]
  refine ⟨hc, ?_, ?_, ?_⟩
  · simp only [Cc.eval, hc, Option.map_some, Option.some.injEq]
    by_cases h : x.toNat < y.toNat
    · simp [h]
    · simp [h, Nat.not_lt.mp h]
  · simp only [Cc.eval, hz, hzero]
  · simp only [Cc.eval, hc, hz, hzero, Option.map_some, Option.bind_some, Option.some.injEq]
    by_cases h : x = y
    · subst h
      simp
    · have hne : x.toNat ≠ y.toNat := fun e => h (BitVec.eq_of_toNat_eq e)
      by_cases hlt : x.toNat < y.toNat
      · simp [hlt]
        omega
      · simp [hlt, h]
        omega

/-! ### One instruction

The successor state of each register form, with its updates in a fixed order: registers, flags,
instruction pointer. -/

section Exec

variable (s : State) (q n : Nat) (d : Reg) (o : Src)

theorem exec_mov : exec (.mov n (.reg d) o) q s = some ((s.setReg n d (s.src n o)).goto q) := rfl

theorem exec_add : exec (.alu .add n (.reg d) o) q s =
    some (((s.setReg n d (s.reg n d + s.src n o)).flags
      (some (decide (2 ^ n ≤ (s.reg n d).toNat + (s.src n o).toNat)))
      (some (s.reg n d + s.src n o == 0))).goto q) := rfl

theorem exec_sub : exec (.alu .sub n (.reg d) o) q s =
    some (((s.setReg n d (s.reg n d - s.src n o)).flags
      (some (decide ((s.reg n d).toNat < (s.src n o).toNat)))
      (some (s.reg n d - s.src n o == 0))).goto q) := rfl

theorem exec_and : exec (.alu .and n (.reg d) o) q s =
    some (((s.setReg n d (s.reg n d &&& s.src n o)).flags (some false)
      (some (s.reg n d &&& s.src n o == 0))).goto q) := rfl

theorem exec_xor : exec (.alu .xor n (.reg d) o) q s =
    some (((s.setReg n d (s.reg n d ^^^ s.src n o)).flags (some false)
      (some (s.reg n d ^^^ s.src n o == 0))).goto q) := rfl

theorem exec_cmp : exec (.alu .cmp n (.reg d) o) q s =
    some ((s.flags (some (decide ((s.reg n d).toNat < (s.src n o).toNat)))
      (some (s.reg n d - s.src n o == 0))).goto q) := rfl

theorem exec_test : exec (.alu .test n (.reg d) o) q s =
    some ((s.flags (some false) (some (s.reg n d &&& s.src n o == 0))).goto q) := rfl

theorem exec_neg : exec (.neg n (.reg d)) q s =
    some (((s.setReg n d (-s.reg n d)).flags (some (s.reg n d != 0))
      (some (s.reg n d == 0))).goto q) := rfl

theorem exec_shift (op : ShiftOp) (c : Option Byte) : exec (.shift op n (.reg d) c) q s =
    some (((s.setReg n d (op.eval (s.reg n d)
      ((c.getD (s.reg 8 .rcx)).toNat % (if n = 64 then 64 else 32)))).flags none none).goto q) :=
  rfl

theorem exec_bswap : exec (.bswap d) q s =
    some ((s.setReg 32 d (byteSwap (s.reg 32 d))).goto q) := rfl

/-- Division of a zero-extended dividend by a divisor that is not zero. -/
theorem exec_div (hd : s.reg 32 .rdx = 0) (hv : s.reg 32 d ≠ 0) :
    exec (.div 32 (.reg d)) q s =
      some ((((s.setReg 32 .rax (s.reg 32 .rax / s.reg 32 d)).setReg 32 .rdx
        (s.reg 32 .rax % s.reg 32 d)).flags none none).goto q) := by
  have hpos : (s.reg 32 d).toNat ≠ 0 := fun h => hv (BitVec.eq_of_toNat_eq (by simpa using h))
  have hlt := (s.reg 32 .rax).isLt
  have hfit : ¬ ((s.reg 32 d).toNat = 0 ∨
      2 ^ 32 ≤ (0 * 2 ^ 32 + (s.reg 32 .rax).toNat) / (s.reg 32 d).toNat) := by
    have := Nat.div_le_self (s.reg 32 .rax).toNat (s.reg 32 d).toNat
    simp only [Nat.zero_mul, Nat.zero_add]
    omega
  have hq : BitVec.ofNat 32 ((s.reg 32 .rax).toNat / (s.reg 32 d).toNat)
      = s.reg 32 .rax / s.reg 32 d := by
    apply BitVec.eq_of_toNat_eq
    rw [BitVec.toNat_udiv, BitVec.toNat_ofNat, Nat.mod_eq_of_lt]
    exact lt_of_le_of_lt (Nat.div_le_self _ _) hlt
  have hr : BitVec.ofNat 32 ((s.reg 32 .rax).toNat % (s.reg 32 d).toNat)
      = s.reg 32 .rax % s.reg 32 d := by
    apply BitVec.eq_of_toNat_eq
    rw [BitVec.toNat_umod, BitVec.toNat_ofNat, Nat.mod_eq_of_lt]
    exact lt_of_le_of_lt (Nat.mod_le _ _) hlt
  have hz : (s.reg 32 .rdx).toNat = 0 := by simp [hd]
  simp only [exec, State.get_reg, hz]
  rw [if_neg hfit]
  simp only [Nat.zero_mul, Nat.zero_add, hq, hr]

end Exec

variable {code : List Byte} {ok : Access → Prop} {s s₁ : State} {Q : State → Prop}

/-- An instruction without memory operands. -/
theorem Leads.exec {p q : Nat} {i : Instr} (hi : At code p i q) (hp : s.ip = .code p)
    (he : exec i q s = some s₁) (ha : accesses i s = []) (h : Leads code ok s₁ Q) :
    Leads code ok s Q :=
  .step hp hi he (by simp [ha]) h

end KernelAx.X86

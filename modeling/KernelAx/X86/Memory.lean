import Mathlib

/-!
# X86 — Memory

Byte-addressed 64-bit memory, with the little-endian multi-byte accesses of the x86-64 machine.
Addresses wrap; a range is named by its base and a length, and an access of `k` bytes at `a` lies
inside a range when its distance from the base leaves room for `k` bytes.
-/

namespace KernelAx.X86

abbrev Byte := BitVec 8

abbrev Addr := BitVec 64

abbrev Mem := Addr → Byte

/-- The little-endian value of the `k` bytes at `a`. -/
def readLE (m : Mem) (a : Addr) : Nat → Nat
  | 0 => 0
  | k + 1 => (m a).toNat + 256 * readLE m (a + 1) k

/-- Store the `k` low bytes of `v` at `a`, least significant byte first. -/
def writeLE (m : Mem) (a : Addr) : Nat → Nat → Mem
  | 0, _ => m
  | k + 1, v => writeLE (Function.update m a (BitVec.ofNat 8 v)) (a + 1) k (v / 256)

/-- `a` is one of the `n` addresses from `base` on. -/
def InRange (a base : Addr) (n : Nat) : Prop := (a - base).toNat < n

/-- An access of `k` bytes at `a` stays inside the `n` bytes from `base` on. -/
def Inside (a : Addr) (k : Nat) (base : Addr) (n : Nat) : Prop := (a - base).toNat + k ≤ n

instance (a : Addr) (k : Nat) (base : Addr) (n : Nat) : Decidable (Inside a k base n) :=
  inferInstanceAs (Decidable (_ ≤ _))

def Apart (a : Addr) (k : Nat) (b : Addr) (n : Nat) : Prop :=
  ∀ x : Addr, InRange x a k → ¬ InRange x b n

variable {a b : Addr} {k n : Nat}

theorem Apart.symm (h : Apart a k b n) : Apart b n a k :=
  fun x hb ha => h x ha hb

theorem Apart.mono {a' b' : Addr} {k' n' : Nat} (h : Apart a k b n) (ha : Inside a' k' a k)
    (hb : Inside b' n' b n) : Apart a' k' b' n' := by
  intro x hx hy
  refine h x ?_ ?_
  · simp only [InRange, Inside] at *
    bv_omega
  · simp only [InRange, Inside] at *
    bv_omega

/-- Two ranges at known distances from one base, one ending where the other starts or before. -/
theorem apart_of_offsets (base : Addr) {i j : Nat} (h : i + k ≤ j) (hn : j + n ≤ 2 ^ 64) :
    Apart (base + BitVec.ofNat 64 i) k (base + BitVec.ofNat 64 j) n := by
  intro x hx hy
  simp only [InRange] at *
  bv_omega

theorem readLE_congr {m m' : Mem}
    (h : ∀ i < k, m' (a + BitVec.ofNat 64 i) = m (a + BitVec.ofNat 64 i)) :
    readLE m' a k = readLE m a k := by
  induction k generalizing a with
  | zero => rfl
  | succ k ih =>
    have h0 := h 0 (Nat.succ_pos k)
    simp only [BitVec.add_zero] at h0
    have ht : readLE m' (a + 1) k = readLE m (a + 1) k := by
      refine ih fun i hi => ?_
      have h1 := h (i + 1) (by omega)
      have e : a + BitVec.ofNat 64 (i + 1) = a + 1 + BitVec.ofNat 64 i := by bv_omega
      rwa [e] at h1
    simp only [readLE, h0, ht]

theorem writeLE_of_not_inRange (m : Mem) (a x : Addr) (k v : Nat) (hk : k ≤ 2 ^ 64)
    (hx : ¬ InRange x a k) : writeLE m a k v x = m x := by
  induction k generalizing m a v with
  | zero => rfl
  | succ k ih =>
    have hne : x ≠ a := by
      rintro rfl
      exact hx (by simp [InRange])
    have htail : ¬ InRange x (a + 1) k := by
      simp only [InRange] at *
      bv_omega
    simp only [writeLE, ih _ _ _ (by omega) htail, Function.update_of_ne hne]

/-- **A word read where it was written is the word.** -/
theorem readLE_writeLE (m : Mem) (a : Addr) (k v : Nat) (hk : k ≤ 2 ^ 64) :
    readLE (writeLE m a k v) a k = v % 256 ^ k := by
  induction k generalizing m a v with
  | zero => simp [readLE, Nat.mod_one]
  | succ k ih =>
    have hhead : ¬ InRange a (a + 1) k := by
      simp only [InRange]
      bv_omega
    simp only [readLE, writeLE, writeLE_of_not_inRange _ _ _ _ _ (by omega : k ≤ 2 ^ 64) hhead,
      Function.update_self, ih _ _ _ (by omega), BitVec.toNat_ofNat]
    rw [Nat.pow_succ' (m := 256), Nat.mod_mul]

/-- **A write leaves the words apart from it unchanged.** -/
theorem readLE_writeLE_of_apart (m : Mem) (v : Nat) (hk : k ≤ 2 ^ 64) (hn : n ≤ 2 ^ 64)
    (h : Apart a k b n) : readLE (writeLE m a k v) b n = readLE m b n := by
  refine readLE_congr fun i hi => writeLE_of_not_inRange _ _ _ _ _ hk fun hx => h _ hx ?_
  simp only [InRange]
  bv_omega

end KernelAx.X86

import Mathlib.Algebra.Order.BigOperators.Group.List
import KernelAx.Eevdf.Ratio
import KernelAx.Eevdf.Model

/-!
# EEVDF — Sleeper decay

A sleeper keeps its lag for a grace interval and then loses it linearly over the decay window. The
part that is left is rounded up: `share m w` is what is left of a magnitude `m` when `w` of the
window is left, and it is characterised by `share_le_iff`. Two sleeps leave at least the share of
one sleep of their length (`share_window_add`), which is why splitting a sleep pays off no debt.
-/

namespace KernelAx.Eevdf

/-- The part of the decay window that a sleep leaves. -/
def windowLeft (elapsed : Int) : Nat := decayWindow.toNat - (elapsed - grace).toNat

theorem decayWindow_pos : 0 < decayWindow.toNat := by decide

theorem windowLeft_le (elapsed : Int) : windowLeft elapsed ≤ decayWindow.toNat := Nat.sub_le _ _

theorem windowLeft_le_of_le {shorter longer : Int} (h : shorter ≤ longer) :
    windowLeft longer ≤ windowLeft shorter := by
  unfold windowLeft
  omega

/-- What two sleeps leave of the window, one after the other, is at least what one leaves. -/
theorem windowLeft_add {a b : Int} (ha : 0 ≤ a) (hb : 0 ≤ b) :
    windowLeft (a + b) * decayWindow.toNat ≤ windowLeft a * windowLeft b := by
  have hgrace : 0 ≤ grace := by decide
  have hx : (a - grace).toNat + (b - grace).toNat ≤ (a + b - grace).toNat := by omega
  unfold windowLeft
  generalize (a - grace).toNat = x at *
  generalize (b - grace).toNat = y at *
  generalize decayWindow.toNat = w at *
  by_cases hw : (a + b - grace).toNat < w
  · obtain ⟨k, rfl⟩ : ∃ k, w = x + y + k := ⟨w - (x + y), by omega⟩
    have hk : x + y + k - (a + b - grace).toNat ≤ k := by omega
    have hx' : x + y + k - x = y + k := by omega
    have hy' : x + y + k - y = x + k := by omega
    rw [hx', hy']
    calc (x + y + k - (a + b - grace).toNat) * (x + y + k)
        ≤ k * (x + y + k) := Nat.mul_le_mul_right _ hk
      _ ≤ k * (x + y + k) + y * x := Nat.le_add_right _ _
      _ = (y + k) * (x + k) := by ring
  · rw [Nat.sub_eq_zero_of_le (by omega), Nat.zero_mul]
    exact Nat.zero_le _

/-- What is left of a magnitude with `left` of the window. -/
def share (magnitude left : Nat) : Nat := ⌈((magnitude * left : Nat) : ℚ) / decayWindow.toNat⌉₊

variable {m left : Nat}

theorem share_le_iff {c : Nat} : share m left ≤ c ↔ m * left ≤ c * decayWindow.toNat := by
  rw [share, Nat.ceil_le, div_le_iff₀ (by exact_mod_cast decayWindow_pos)]
  exact_mod_cast Iff.rfl

theorem le_share_mul (m left : Nat) : m * left ≤ share m left * decayWindow.toNat :=
  share_le_iff.mp le_rfl

theorem share_le (h : left ≤ decayWindow.toNat) : share m left ≤ m :=
  share_le_iff.mpr (Nat.mul_le_mul_left m h)

theorem share_mono {m' left' : Nat} (hm : m ≤ m') (hl : left ≤ left') :
    share m left ≤ share m' left' :=
  share_le_iff.mpr ((Nat.mul_le_mul hm hl).trans (le_share_mul m' left'))

@[simp] theorem share_zero_right (m : Nat) : share m 0 = 0 := by
  simp [share]

theorem share_window (m : Nat) : share m decayWindow.toNat = m := by
  refine le_antisymm (share_le le_rfl) ?_
  exact Nat.le_of_mul_le_mul_right (le_share_mul m _) decayWindow_pos

theorem share_windowLeft_eq (hm : 0 < m) (elapsed : Int) :
    share m (windowLeft elapsed) = m ↔ m * (elapsed - grace).toNat < decayWindow.toNat := by
  have hle := share_le (m := m) (windowLeft_le elapsed)
  have hiff : share m (windowLeft elapsed) ≤ m - 1 ↔ _ := share_le_iff
  have hsplit : (m - 1) * decayWindow.toNat + decayWindow.toNat = m * decayWindow.toNat := by
    rw [← Nat.succ_mul, Nat.succ_eq_add_one, Nat.sub_add_cancel hm]
  rw [windowLeft, Nat.mul_sub] at hiff
  rw [windowLeft] at hle ⊢
  have hlost : (elapsed - grace).toNat ≤ m * (elapsed - grace).toNat := Nat.le_mul_of_pos_left _ hm
  have hwhole : decayWindow.toNat ≤ m * decayWindow.toNat := Nat.le_mul_of_pos_left _ hm
  generalize share m (decayWindow.toNat - (elapsed - grace).toNat) = s at *
  omega

theorem share_window_add (m : Nat) {a b : Int} (ha : 0 ≤ a) (hb : 0 ≤ b) :
    share m (windowLeft (a + b)) ≤ share (share m (windowLeft a)) (windowLeft b) := by
  refine share_le_iff.mpr (Nat.le_of_mul_le_mul_right ?_ decayWindow_pos)
  calc m * windowLeft (a + b) * decayWindow.toNat
      = m * (windowLeft (a + b) * decayWindow.toNat) := Nat.mul_assoc ..
    _ ≤ m * (windowLeft a * windowLeft b) := Nat.mul_le_mul_left m (windowLeft_add ha hb)
    _ = m * windowLeft a * windowLeft b := (Nat.mul_assoc ..).symm
    _ ≤ share m (windowLeft a) * decayWindow.toNat * windowLeft b :=
        Nat.mul_le_mul_right _ (le_share_mul _ _)
    _ = share m (windowLeft a) * windowLeft b * decayWindow.toNat := Nat.mul_right_comm ..
    _ ≤ share (share m (windowLeft a)) (windowLeft b) * decayWindow.toNat * decayWindow.toNat :=
        Nat.mul_le_mul_right _ (le_share_mul _ _)

/-! ### The lag on wake -/

def decayed (cls : RequestClass) (lag elapsed : Int) : Int :=
  let lag := min lag (creditCap cls)
  lag.sign * share lag.natAbs (windowLeft elapsed)

theorem creditCap_pos (cls : RequestClass) : 0 < creditCap cls ∧ creditCap cls ≤ maxI128 := by
  cases cls <;> decide

theorem windowLeft_of_le {elapsed : Int} (h : elapsed ≤ grace) :
    windowLeft elapsed = decayWindow.toNat := by
  unfold windowLeft
  omega

theorem boundedSleeperDecayInner_eq {cls : RequestClass} {lag elapsed : Int} (hlag : InI128 lag)
    (hnonneg : 0 ≤ elapsed) (hmax : elapsed ≤ maxI128) :
    boundedSleeperDecayInner cls lag elapsed = .ok (decayed cls lag elapsed) := by
  have hcap := creditCap_pos cls
  have hcapped :
      (if creditCap cls < lag then creditCap cls else lag) = min lag (creditCap cls) := by
    rcases lt_or_ge (creditCap cls) lag with h | h
    · rw [if_pos h, min_eq_right h.le]
    · rw [if_neg (not_lt.mpr h), min_eq_left h]
  unfold boundedSleeperDecayInner decayed
  simp only [hcapped]
  have hin : InI128 (min lag (creditCap cls)) := by
    obtain ⟨hlo, hhi⟩ := hlag
    simp only [InI128, minI128, maxI128] at *
    omega
  have hle : min lag (creditCap cls) ≤ creditCap cls := min_le_right _ _
  generalize min lag (creditCap cls) = l at *
  rw [if_neg (not_lt.mpr hnonneg)]
  split
  · rename_i hgrace
    rw [windowLeft_of_le hgrace, share_window, Int.sign_mul_natAbs]
  rename_i hgrace
  have hpos : 0 ≤ grace ∧ 0 < decayWindow ∧ decayWindow ≤ maxI128 := by decide
  have hbeyond : InI128 (elapsed - grace) := by
    simp only [InI128, minI128, maxI128] at *
    omega
  rw [inI128_of hbeyond, ok_bind]
  split
  · rename_i hover
    have : windowLeft elapsed = 0 := by
      unfold windowLeft
      omega
    rw [this, share_zero_right, Nat.cast_zero, mul_zero]
  rename_i hwithin
  have hmin : min (elapsed - grace) decayWindow = elapsed - grace := by omega
  have hremaining : InI128 (decayWindow - (elapsed - grace)) := by
    simp only [InI128, minI128, maxI128] at *
    omega
  have hleft : (decayWindow - (elapsed - grace)).toNat = windowLeft elapsed := by
    unfold windowLeft
    omega
  rw [hmin, inI128_of hremaining, ok_bind, hleft]
  split
  · rename_i hzero
    simp [hzero]
  rename_i hne
  have hshare := share_le (m := l.natAbs) (windowLeft_le elapsed)
  have hmagnitude : l.natAbs ≤ maxU128 := by
    simp only [InI128, minI128, maxI128, maxU128] at *
    omega
  have hwindow : windowLeft elapsed ≤ maxU128 ∧ decayWindow.toNat ≤ maxU128 :=
    ⟨(windowLeft_le elapsed).trans (by decide), by decide⟩
  rw [checkedMulDivCeil_eq hmagnitude hwindow.1 hwindow.2 decayWindow_pos, ← share,
    inU128_of (hshare.trans hmagnitude), ok_bind]
  split
  · rename_i hneg
    rw [Int.sign_eq_neg_one_of_neg hneg, neg_one_mul]
  · rename_i hnonneg
    have hl : 0 < l := lt_of_le_of_ne (not_lt.mp hnonneg) (Ne.symm hne)
    obtain ⟨n, rfl⟩ := Int.eq_ofNat_of_zero_le hl.le
    rw [Int.natAbs_natCast] at hshare ⊢
    have hcapped : share n (windowLeft elapsed) ≤ (creditCap cls).toNat :=
      hshare.trans ((Int.le_toNat hcap.1.le).mpr hle)
    have hfits : (share n (windowLeft elapsed) : Int) ≤ maxI128 :=
      (Int.ofNat_le.mpr hshare).trans (hle.trans hcap.2)
    rw [min_eq_left hcapped, checkedI128_of hfits, Int.sign_eq_one_of_pos hl, one_mul]

theorem decayed_of_nonpos {cls : RequestClass} {lag : Int} (h : lag ≤ 0) (elapsed : Int) :
    decayed cls lag elapsed = -share lag.natAbs (windowLeft elapsed) := by
  have hcap := (creditCap_pos cls).1
  rw [decayed, min_eq_left (h.trans hcap.le)]
  rcases h.lt_or_eq with hneg | rfl
  · rw [Int.sign_eq_neg_one_of_neg hneg, neg_one_mul]
  · simp [share]

theorem natAbs_decayed (cls : RequestClass) (lag elapsed : Int) :
    (decayed cls lag elapsed).natAbs
      = share (min lag (creditCap cls)).natAbs (windowLeft elapsed) := by
  rw [decayed, Int.natAbs_mul, Int.natAbs_natCast]
  rcases eq_or_ne (min lag (creditCap cls)) 0 with hzero | hne
  · simp [hzero, share]
  · rw [Int.natAbs_sign_of_ne_zero hne, one_mul]

/-- A debt that is slept off in pieces is at least what one sleep leaves of it; the induction is on
the pieces. -/
theorem foldlM_decay_le {cls : RequestClass} (sleeps : List Int) {lag : Int} (hlag : InI128 lag)
    (hdebt : lag ≤ 0) (hsleeps : ∀ s ∈ sleeps, 0 ≤ s) (hmax : sleeps.sum ≤ maxI128) :
    ∃ split, sleeps.foldlM (boundedSleeperDecayInner cls) lag = .ok split ∧
      split ≤ decayed cls lag sleeps.sum := by
  induction sleeps generalizing lag with
  | nil =>
    refine ⟨lag, rfl, ?_⟩
    rw [List.sum_nil, decayed_of_nonpos hdebt, windowLeft_of_le (by decide), share_window]
    omega
  | cons first rest ih =>
    have hfirst := hsleeps first List.mem_cons_self
    have hrest : 0 ≤ rest.sum := List.sum_nonneg fun s hs => hsleeps s (List.mem_cons_of_mem _ hs)
    rw [List.sum_cons] at hmax ⊢
    have hshare := share_le (m := lag.natAbs) (windowLeft_le first)
    have hstep := @boundedSleeperDecayInner_eq cls _ _ hlag hfirst (by omega)
    rw [decayed_of_nonpos hdebt] at hstep
    generalize hleft : share lag.natAbs (windowLeft first) = left at hshare hstep
    have hin : InI128 (-left) := by
      obtain ⟨hlo, hhi⟩ := hlag
      simp only [InI128, minI128, maxI128] at *
      omega
    obtain ⟨split, hsplit, hle⟩ := ih hin (by omega)
      (fun s hs => hsleeps s (List.mem_cons_of_mem _ hs)) (by omega)
    refine ⟨split, by rw [List.foldlM_cons, hstep, ok_bind, hsplit], hle.trans ?_⟩
    rw [decayed_of_nonpos (by omega), decayed_of_nonpos hdebt, Int.natAbs_neg,
      Int.natAbs_natCast, ← hleft]
    exact neg_le_neg (Int.ofNat_le.mpr (share_window_add _ hfirst hrest))

theorem Entity.wake_lag {e e' : Entity} {slept v : Int} (hasleep : e.sleeperV = some slept)
    (h : e.wakePreservingProgress v = .ok e') :
    boundedSleeperDecayInner e.cls e.lag (v - slept) = .ok e'.lag := by
  rw [wakePreservingProgress, hasleep] at h
  obtain ⟨elapsed, helapsed, h⟩ := bind_eq_ok.mp h
  obtain ⟨rfl, -⟩ := inI128_ok helapsed
  split at h
  · cases h
  obtain ⟨-, -, h⟩ := bind_eq_ok.mp h
  obtain ⟨lag, hlag, h⟩ := bind_eq_ok.mp h
  obtain ⟨start, -, h⟩ := bind_eq_ok.mp h
  obtain ⟨length, -, h⟩ := bind_eq_ok.mp h
  obtain ⟨deadline, -, h⟩ := bind_eq_ok.mp h
  cases h
  exact hlag

/-- **Bounded sleeper decay.**  The lag on wake has the sign of the lag at sleep, a magnitude that
is no greater and does not grow with the sleep, and at most the credit cap of the class. A debt is
kept as it is exactly while the loss beyond the grace interval is less than one unit of lag, since
the rest is rounded up. Sleeps one after the other leave at least the debt of one sleep of their
total length. -/
theorem sleeper_decay {cls : RequestClass} {lag elapsed : Int} (hlag : InI128 lag)
    (hnonneg : 0 ≤ elapsed) (hmax : elapsed ≤ maxI128) :
    ∃ woken, boundedSleeperDecayInner cls lag elapsed = .ok woken ∧
      (∀ {e e' : Entity} {slept : Int}, e.cls = cls → e.lag = lag → e.sleeperV = some slept →
        e.wakePreservingProgress (slept + elapsed) = .ok e' → e'.lag = woken) ∧
      (0 ≤ lag → 0 ≤ woken) ∧ (lag ≤ 0 → woken ≤ 0) ∧
      woken.natAbs ≤ lag.natAbs ∧ woken ≤ creditCap cls ∧
      (∀ longer, elapsed ≤ longer → longer ≤ maxI128 →
        ∃ later, boundedSleeperDecayInner cls lag longer = .ok later ∧
          later.natAbs ≤ woken.natAbs) ∧
      (lag < 0 → (woken = lag ↔
        lag.natAbs * (elapsed - grace).toNat < decayWindow.toNat)) ∧
      (lag < 0 → ∀ sleeps : List Int, (∀ s ∈ sleeps, 0 ≤ s) → sleeps.sum = elapsed →
        ∃ split, sleeps.foldlM (boundedSleeperDecayInner cls) lag = .ok split ∧
          split ≤ woken) := by
  have hcap := (creditCap_pos cls).1
  have hdecay := @boundedSleeperDecayInner_eq cls _ _ hlag hnonneg hmax
  have hcapped : (min lag (creditCap cls)).natAbs ≤ lag.natAbs := by omega
  have hshare := share_le (m := (min lag (creditCap cls)).natAbs) (windowLeft_le elapsed)
  refine ⟨_, hdecay, ?_, fun h => ?_, fun h => ?_, ?_, ?_, ?_, fun h => ?_, fun h => ?_⟩
  · rintro e e' slept rfl rfl hasleep hwake
    have hwoken := e.wake_lag hasleep hwake
    rw [add_sub_cancel_left, hdecay] at hwoken
    exact (Except.ok.inj hwoken).symm
  · exact mul_nonneg (Int.sign_nonneg_iff.mpr (by omega)) (Int.natCast_nonneg _)
  · rw [decayed_of_nonpos h]
    omega
  · rw [natAbs_decayed]
    exact hshare.trans hcapped
  · have hsize := natAbs_decayed cls lag elapsed
    rcases le_total lag 0 with h | h
    · rw [decayed_of_nonpos h]
      omega
    · have : (min lag (creditCap cls)).natAbs = min lag (creditCap cls) := by omega
      omega
  · intro longer hle hlonger
    refine ⟨_, boundedSleeperDecayInner_eq hlag (hnonneg.trans hle) hlonger, ?_⟩
    rw [natAbs_decayed, natAbs_decayed]
    exact share_mono le_rfl (windowLeft_le_of_le hle)
  · rw [decayed_of_nonpos h.le, ← share_windowLeft_eq (by omega)]
    omega
  · rintro sleeps hsleeps rfl
    exact foldlM_decay_le sleeps hlag h.le hsleeps hmax

/-- Half of the window beyond the grace interval leaves half of a debt, in one sleep or in three. -/
theorem sleeper_decay_half :
    boundedSleeperDecayInner .normal (-8) (grace + decayWindow / 2) = .ok (-4) ∧
      ∃ split, [1, 2, grace + decayWindow / 2 - 3].foldlM
        (boundedSleeperDecayInner .normal) (-8) = .ok split ∧ split ≤ -4 := by
  have hhalf : boundedSleeperDecayInner .normal (-8) (grace + decayWindow / 2) = .ok (-4) := by
    decide +kernel
  obtain ⟨woken, hwoken, -, -, -, -, -, -, -, hsplit⟩ :=
    @sleeper_decay .normal (-8) (grace + decayWindow / 2) (by decide) (by decide) (by decide)
  obtain rfl := Except.ok.inj (hwoken.symm.trans hhalf)
  exact ⟨hwoken, hsplit (by decide) _ (by decide) (by decide)⟩

/-- A sleep one unit longer than the grace interval keeps a debt of one unit. -/
theorem debt_beyond_grace : boundedSleeperDecayInner .normal (-1) (grace + 1) = .ok (-1) := by
  decide +kernel

end KernelAx.Eevdf

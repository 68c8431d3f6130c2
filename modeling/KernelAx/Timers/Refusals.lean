import Mathlib.Data.Finset.Card
import KernelAx.Timers.Tokens

/-!
# Timer callbacks — refusals

`register` reports a full registry when `len` is the capacity. `cancel` counts `len` down at once,
also for a callback that a dispatch has not finished with, whose slot is not free before. With such
a slot and no other one left, `register` looks for a free slot in vain and reports that the tokens
are exhausted (`full_misreported`). Its errors are what they say exactly in the states that are not
like that (`register_refuses`).
-/

namespace KernelAx.Timers

open Interleaving

namespace CallbackSlot

/-- The slot holds a callback that is not cancelled. -/
def Live (slot : CallbackSlot) : Prop := slot.callback ≠ none ∧ slot.closing = false

/-- The slot is live, or a dispatch has not finished with its cancelled callback. -/
def Occupied (slot : CallbackSlot) : Prop := slot.Live ∨ slot.closing = true ∧ slot.inFlight ≠ 0

instance : DecidablePred Live := fun _ => inferInstanceAs (Decidable (_ ∧ _))

instance : DecidablePred Occupied := fun _ => inferInstanceAs (Decidable (_ ∨ _))

end CallbackSlot

/-- **What `len` counts**: it is the capacity exactly if every slot is live. -/
theorem Recorded.full_iff {cpu : Nat} {inner : CallbackInner} {log : List Event}
    (h : Recorded cpu inner log) :
    inner.len = callbackCapacity ↔ ∀ slot < callbackCapacity, (inner.slots slot).Live := by
  -- the slots of the tokens that are not cancelled, each of them once
  generalize hlive : (tokens log).filter (fun token => .cancelled token ∉ log) = live
  have hmem {token : TimerCallbackToken} : token ∈ live ↔
      (∃ b, .registered token b ∈ log) ∧ .cancelled token ∉ log := by
    rw [← hlive, List.mem_filter, mem_tokens, decide_eq_true_iff]
  have hslot {token : TimerCallbackToken} (htoken : token ∈ live) :
      token = ⟨cpu, token.slot, (inner.slots token.slot).generation⟩ ∧
        token.slot < callbackCapacity ∧ (inner.slots token.slot).Live := by
    obtain ⟨⟨b, hb⟩, hcancelled⟩ := hmem.mp htoken
    obtain ⟨hcpu, hbound, -⟩ := h.issued hb
    obtain ⟨hcurrent, hheld, hopen⟩ := h.live hb hcancelled
    exact ⟨by rw [hcurrent, ← hcpu], hbound, by rw [hheld]; exact nofun, hopen⟩
  have hnodup : (live.map (·.slot)).Nodup := by
    refine List.Nodup.map_on (fun x hx y hy heq => ?_) (hlive ▸ h.nodup.filter _)
    rw [(hslot hx).1, (hslot hy).1, heq]
  have hcard : (live.map (·.slot)).toFinset.card = inner.len := by
    rw [List.toFinset_card_of_nodup hnodup, List.length_map, ← hlive,
      ← List.countP_eq_length_filter]
    exact h.len.symm
  have hsub : (live.map (·.slot)).toFinset ⊆ Finset.range callbackCapacity := fun slot hmem => by
    obtain ⟨token, htoken, rfl⟩ := List.mem_map.mp (List.mem_toFinset.mp hmem)
    exact Finset.mem_range.mpr (hslot htoken).2.1
  constructor
  · intro hfull slot hbound
    have heq := Finset.eq_of_subset_of_card_le hsub (by rw [hcard, hfull, Finset.card_range])
    have hin := Finset.mem_range.mpr hbound
    rw [← heq, List.mem_toFinset] at hin
    obtain ⟨token, htoken, rfl⟩ := List.mem_map.mp hin
    exact (hslot htoken).2.2
  · intro hall
    have hsup : Finset.range callbackCapacity ⊆ (live.map (·.slot)).toFinset := fun slot hin => by
      obtain ⟨hheld, hopen⟩ := hall slot (Finset.mem_range.mp hin)
      obtain ⟨b, hb⟩ := Option.ne_none_iff_exists'.mp hheld
      have hcurrent := h.current hb
      refine List.mem_toFinset.mpr (List.mem_map.mpr ⟨_, hmem.mpr ⟨⟨b, hcurrent⟩, ?_⟩, rfl⟩)
      intro hcancelled
      rcases h.dead hcancelled rfl with hnone | hclosing
      · exact hheld hnone
      · exact Bool.false_ne_true (hopen.symm.trans hclosing)
    rw [← hcard, hsub.antisymm hsup, Finset.card_range]

variable {ι : Type} [DecidableEq ι] {cpu : Nat} {c : Config ι Memory Call}

theorem not_occupied_iff (run : (system cpu ι).Run (initial ι) c) (slot : Nat) :
    ¬ (c.shared.inner.slots slot).Occupied ↔
      (c.shared.inner.slots slot).callback = none ∧ (c.shared.inner.slots slot).inFlight = 0 := by
  constructor
  · intro h
    obtain ⟨hlive, hunfinished⟩ := not_or.mp h
    have hnone : (c.shared.inner.slots slot).callback = none := by
      by_contra hheld
      have hclosing : (c.shared.inner.slots slot).closing = true := by
        by_contra hopen
        exact hlive ⟨hheld, Bool.eq_false_of_not_eq_true hopen⟩
      exact hunfinished ⟨hclosing, (run_recorded run).closing hclosing hheld⟩
    refine ⟨hnone, ?_⟩
    by_contra hbusy
    -- a lease keeps the callback in the slot
    have hleased := run_leased run
    obtain ⟨i, hi⟩ := (hleased.counted slot).exists_ne_zero hbusy
    obtain ⟨lease, hlease, hon⟩ := List.countP_pos_iff.mp (Nat.pos_of_ne_zero hi)
    have hheld := (hleased.served i lease hlease).held
    rw [beq_iff_eq.mp hon, hnone] at hheld
    cases hheld
  · rintro ⟨hnone, hidle⟩ (⟨hheld, -⟩ | ⟨-, hbusy⟩)
    · exact hheld hnone
    · exact hbusy hidle

/-! ### The errors -/

/-- No slot is left: each of them is occupied. -/
def CallbackInner.AllOccupied (inner : CallbackInner) : Prop :=
  ∀ slot < callbackCapacity, (inner.slots slot).Occupied

/-- What is free has no generation left. -/
def CallbackInner.FreeSlotsUsedUp (inner : CallbackInner) : Prop :=
  ∀ slot < callbackCapacity, ¬ (inner.slots slot).Occupied →
    wordMax ≤ (inner.slots slot).generation

variable {inner : CallbackInner} {ownerCpu callback : Nat}

theorem register_error {e : TimerCallbackRegisterError} {rejected : Nat} {inner' : CallbackInner}
    (h : inner.register ownerCpu callback = (.error (e, rejected), inner')) :
    rejected = callback ∧ inner' = inner := by
  unfold CallbackInner.register at h
  split_ifs at h
  · cases h
    exact ⟨rfl, rfl⟩
  · dsimp only at h
    split at h <;> cases h
    exact ⟨rfl, rfl⟩

theorem register_capacityExhausted_iff :
    inner.register ownerCpu callback = (.error (.capacityExhausted, callback), inner) ↔
      inner.len = callbackCapacity := by
  unfold CallbackInner.register
  split_ifs with hfull
  · exact iff_of_true rfl hfull
  · refine iff_of_false ?_ hfull
    dsimp only
    split <;> exact nofun

/-- The search for a slot goes through all of them, whichever it begins with. -/
theorem register_tokenSpaceExhausted_iff (run : (system cpu ι).Run (initial ι) c) :
    c.shared.inner.register ownerCpu callback
        = (.error (.tokenSpaceExhausted, callback), c.shared.inner) ↔
      c.shared.inner.len ≠ callbackCapacity ∧ c.shared.inner.FreeSlotsUsedUp := by
  have hfree := not_occupied_iff run
  have hmem : ∀ slot, slot ∈ rotation _ _ ↔ slot < _ :=
    fun _ => mem_rotation (run_recorded run).next
  unfold CallbackInner.register
  split_ifs with hfull
  · exact iff_of_false nofun fun h => h.1 hfull
  dsimp only
  split
  · next hnone =>
    refine iff_of_true rfl ⟨hfull, fun slot hslot hnot => ?_⟩
    obtain ⟨hempty, hidle⟩ := (hfree slot).mp hnot
    have := List.find?_eq_none.mp hnone slot ((hmem slot).mpr hslot)
    simpa [hempty, hidle] using this
  · next slot hfound =>
    refine iff_of_false nofun fun ⟨_, hused⟩ => ?_
    have hslot := (hmem slot).mp (List.mem_of_find?_eq_some hfound)
    have hpassed := List.find?_some hfound
    simp only [Bool.and_eq_true, beq_iff_eq, Option.isNone_iff_eq_none, decide_eq_true_iff]
      at hpassed
    exact absurd hpassed.2 (Nat.not_lt.mpr (hused slot hslot ((hfree slot).mpr hpassed.1)))

/-- **When refusals are truthful.**  That a registry is reported as full exactly if all its slots
are occupied, and its tokens as exhausted exactly if some slot is free but none that has a
generation left, is the case in a state if and only if no cancelled callback is among those that
occupy all the slots. A refusal always gives the callback back and changes nothing. -/
theorem register_refuses (run : (system cpu ι).Run (initial ι) c) (ownerCpu callback : Nat) :
    (((c.shared.inner.register ownerCpu callback
          = (.error (.capacityExhausted, callback), c.shared.inner) ↔
        c.shared.inner.AllOccupied) ∧
      (c.shared.inner.register ownerCpu callback
          = (.error (.tokenSpaceExhausted, callback), c.shared.inner) ↔
        (∃ slot < callbackCapacity, ¬ (c.shared.inner.slots slot).Occupied) ∧
          c.shared.inner.FreeSlotsUsedUp)) ↔
      (c.shared.inner.AllOccupied →
        ∀ slot < callbackCapacity, (c.shared.inner.slots slot).closing = false)) ∧
    ∀ {e : TimerCallbackRegisterError} {rejected : Nat} {inner : CallbackInner},
      c.shared.inner.register ownerCpu callback = (.error (e, rejected), inner) →
        rejected = callback ∧ inner = c.shared.inner := by
  have hlive := (run_recorded run).full_iff
  rw [register_capacityExhausted_iff, register_tokenSpaceExhausted_iff run]
  refine ⟨⟨fun h hall slot hslot => (hlive.mp (h.1.mpr hall) slot hslot).2, fun clear => ?_⟩,
    register_error⟩
  have hfull : c.shared.inner.len = callbackCapacity ↔ c.shared.inner.AllOccupied := by
    refine ⟨fun h slot hslot => .inl (hlive.mp h slot hslot), fun hall => hlive.mpr ?_⟩
    intro slot hslot
    refine (hall slot hslot).resolve_right fun h => ?_
    exact Bool.false_ne_true ((clear hall slot hslot).symm.trans h.1)
  have hsome : ¬ c.shared.inner.AllOccupied ↔
      ∃ slot < callbackCapacity, ¬ (c.shared.inner.slots slot).Occupied := by
    simp [CallbackInner.AllOccupied]
  exact ⟨hfull, and_congr_left' ((not_congr hfull).trans hsome)⟩

/-- A registration for every slot, a dispatch and the cancellation of the first callback. -/
abbrev fullCalls : List (Nat × Call) :=
  (List.range callbackCapacity).map (·, .register) ++ [(16, .dispatch), (17, .cancel ⟨0, 0, 1⟩)]

theorem fullCalls_run (order : List Nat) : (system 0 Nat).Run (initial Nat)
    ((system 0 Nat).exec ((initial Nat).callingAll fullCalls) order) := by
  refine (System.Run.callingAll .refl (by decide) (fun _ _ => rfl) fun p hp _ => ?_).exec order
  rcases List.mem_append.mp hp with hp | hp
  · obtain ⟨i, -, rfl⟩ := List.mem_map.mp hp
    trivial
  · rcases List.mem_pair.mp hp with rfl | rfl
    · trivial
    · rfl

abbrev filling : List Nat := (List.range callbackCapacity).flatMap fun i => [i, i]

theorem register_refuses_full :
    let full := (system 0 Nat).exec ((initial Nat).callingAll fullCalls) filling
    full.shared.inner.register 0 99 = (.error (.capacityExhausted, 99), full.shared.inner) :=
  ((register_refuses (fullCalls_run filling) 0 99).1.mpr fun _ => by decide +kernel).1.mpr
    (by unfold CallbackInner.AllOccupied; decide +kernel)

/-- A callback of a full registry is cancelled under a dispatch: there is no free slot, and the
tokens are reported to be exhausted. -/
theorem full_misreported : ∃ c : Config Nat Memory Call, (system 0 Nat).Run (initial Nat) c ∧
    c.shared.inner.AllOccupied ∧
    (c.shared.inner.register 0 99).1 = .error (.tokenSpaceExhausted, 99) :=
  ⟨_, fullCalls_run (filling ++ [16, 17]), by unfold CallbackInner.AllOccupied; decide +kernel,
    by decide +kernel⟩

end KernelAx.Timers

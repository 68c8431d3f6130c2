import KernelAx.Timers.Leases

/-!
# Timer callbacks — boxes

Every box is in one place: with a call, in a slot, or dropped (`Placed`). A step moves at most one
box: from a registration into a slot, from a slot to the call that takes it out, from a call to
nowhere.
-/

namespace KernelAx.Timers

open Interleaving
open Function (update update_self update_of_ne)

variable {ι : Type} [DecidableEq ι] {cpu : Nat}

/-! ### Places -/

/-- Where a box is. -/
inductive Place (ι : Type) where
  | fresh
  | call (i : ι)
  | slot (index : Nat)
  | dropped
  deriving DecidableEq

/-- The box that a call owns. -/
def Call.box : Call → Option Nat
  | .publish callback | .reject callback _ => some callback
  | .discard _ _ deferred | .finish deferred _ => deferred
  | _ => none

/-- A box is in one place: with a call, in a slot or dropped. -/
structure Placed (place : Nat → Place ι) (c : Config ι Memory Call) : Prop where
  call : ∀ i b, (c.calls i).box = some b ↔ place b = .call i
  slot : ∀ s b, (c.shared.inner.slots s).callback = some b ↔ place b = .slot s
  dropped : ∀ b, c.shared.log.count (.dropped b) = if place b = .dropped then 1 else 0
  fresh : ∀ b, c.shared.boxes ≤ b ↔ place b = .fresh

namespace Placed

variable {place : Nat → Place ι} {c : Config ι Memory Call} {i : ι} {m : Memory} {k : Call}
  {b : Nat}

section

variable (h : Placed place c)
include h

/-- A step that moves no box. -/
theorem stay (hbox : k.box = (c.calls i).box)
    (hslots : ∀ s, (m.inner.slots s).callback = (c.shared.inner.slots s).callback)
    (hdropped : ∀ b, m.log.count (.dropped b) = c.shared.log.count (.dropped b))
    (hboxes : m.boxes = c.shared.boxes) : Placed place ⟨m, update c.calls i k⟩ where
  call j b := by
    dsimp only
    by_cases e : j = i
    · subst e
      rw [update_self, hbox]
      exact h.call j b
    · rw [update_of_ne e]
      exact h.call j b
  slot s b := by
    rw [hslots]
    exact h.slot s b
  dropped b := by
    rw [hdropped]
    exact h.dropped b
  fresh b := by
    rw [hboxes]
    exact h.fresh b

/-- The box `b` moves to `p`; the call that moves it owns it before or after, or neither. -/
theorem move {p : Place ι} (hbefore : ∀ b', (c.calls i).box = some b' → b' = b)
    (hafter : ∀ b', k.box = some b' ↔ b' = b ∧ p = .call i)
    (howner : ∀ j, j ≠ i → place b ≠ .call j ∧ p ≠ .call j)
    (hslots : ∀ s b', b' ≠ b →
      ((m.inner.slots s).callback = some b' ↔ (c.shared.inner.slots s).callback = some b'))
    (hslot : ∀ s, (m.inner.slots s).callback = some b ↔ p = .slot s)
    (hcounts : ∀ b', b' ≠ b → m.log.count (.dropped b') = c.shared.log.count (.dropped b'))
    (hcount : m.log.count (.dropped b) = if p = .dropped then 1 else 0)
    (hboxes : ∀ b', b' ≠ b → (m.boxes ≤ b' ↔ c.shared.boxes ≤ b'))
    (hallocated : m.boxes ≤ b ↔ p = .fresh) :
    Placed (update place b p) ⟨m, update c.calls i k⟩ where
  call j b' := by
    dsimp only
    by_cases eb : b' = b
    · subst eb
      rw [update_self]
      by_cases e : j = i
      · subst e
        rw [update_self, hafter]
        simp
      · rw [update_of_ne e, h.call]
        simp [howner j e]
    · rw [update_of_ne eb]
      by_cases e : j = i
      · subst e
        rw [update_self, hafter, ← h.call j b']
        exact ⟨fun hb => absurd hb.1 eb, fun hb => absurd (hbefore b' hb) eb⟩
      · rw [update_of_ne e]
        exact h.call j b'
  slot s b' := by
    by_cases eb : b' = b
    · subst eb
      rw [update_self]
      exact hslot s
    · rw [update_of_ne eb, hslots s b' eb]
      exact h.slot s b'
  dropped b' := by
    by_cases eb : b' = b
    · subst eb
      rw [update_self]
      exact hcount
    · rw [update_of_ne eb, hcounts b' eb]
      exact h.dropped b'
  fresh b' := by
    by_cases eb : b' = b
    · subst eb
      rw [update_self]
      exact hallocated
    · rw [update_of_ne eb, hboxes b' eb]
      exact h.fresh b'

/-- A new box. -/
theorem allocate (hk : c.calls i = .register) :
    Placed (update place c.shared.boxes (.call i))
      ⟨{ c.shared with boxes := c.shared.boxes + 1 },
        update c.calls i (.publish c.shared.boxes)⟩ := by
  have hfresh := (h.fresh c.shared.boxes).mp (Nat.le_refl _)
  refine h.move (fun b' hb => ?_) (fun b' => ?_) (fun j hj => ⟨by rw [hfresh]; exact nofun, ?_⟩)
    (fun s b' _ => .rfl) (fun s => ?_) (fun _ _ => rfl) ?_ (fun b' hb => ?_) ?_
  · rw [hk] at hb
    cases hb
  · simp [Call.box, eq_comm]
  · simpa using Ne.symm hj
  · simp [h.slot, hfresh]
  · simp [h.dropped, hfresh]
  · dsimp only
    omega
  · simp

/-- A box that its call owns moves into a slot that is empty. -/
theorem publish {s : Nat} {callback : Nat} {value : CallbackSlot}
    (hk : c.calls i = .publish callback) (hfree : (c.shared.inner.slots s).callback = none)
    (hslots : m.inner.slots = update c.shared.inner.slots s value)
    (hvalue : value.callback = some callback)
    (hlog : ∀ b, m.log.count (.dropped b) = c.shared.log.count (.dropped b))
    (hboxes : m.boxes = c.shared.boxes) (hbox : k.box = none) :
    Placed (update place callback (.slot s)) ⟨m, update c.calls i k⟩ := by
  have hplace : place callback = .call i := (h.call i callback).mp (by rw [hk]; rfl)
  refine h.move (fun b' hb => ?_) (fun b' => by simp [hbox]) (fun j hj => ⟨?_, nofun⟩)
    (fun s' b' hb' => ?_) (fun s' => ?_) (fun b' _ => hlog b') ?_ (fun b' _ => by rw [hboxes]) ?_
  · rw [hk] at hb
    exact (Option.some.inj hb).symm
  · rw [hplace]
    simpa using Ne.symm hj
  · by_cases e : s' = s
    · subst e
      rw [hslots, update_self, hvalue, hfree]
      simp [Ne.symm hb']
    · rw [hslots, update_of_ne e]
  · by_cases e : s' = s
    · subst e
      simp [hslots, hvalue]
    · rw [hslots, update_of_ne e, h.slot, hplace]
      simp [Ne.symm e]
  · simp [hlog, h.dropped, hplace]
  · simp [hboxes, h.fresh, hplace]

/-- A call takes the box out of a slot. -/
theorem take {s : Nat} {callback : Nat} {value : CallbackSlot}
    (hbefore : (c.calls i).box = none) (hheld : (c.shared.inner.slots s).callback = some callback)
    (hslots : m.inner.slots = update c.shared.inner.slots s value)
    (hvalue : value.callback = none)
    (hlog : ∀ b, m.log.count (.dropped b) = c.shared.log.count (.dropped b))
    (hboxes : m.boxes = c.shared.boxes) (hbox : k.box = some callback) :
    Placed (update place callback (.call i)) ⟨m, update c.calls i k⟩ := by
  have hplace : place callback = .slot s := (h.slot s callback).mp hheld
  refine h.move (fun b' hb => by rw [hbefore] at hb; cases hb)
    (fun b' => by simp [hbox, eq_comm]) (fun j hj => ⟨by rw [hplace]; exact nofun, ?_⟩)
    (fun s' b' hb' => ?_) (fun s' => ?_) (fun b' _ => hlog b') ?_ (fun b' _ => by rw [hboxes]) ?_
  · simpa using Ne.symm hj
  · by_cases e : s' = s
    · subst e
      rw [hslots, update_self, hvalue, hheld]
      simp [Ne.symm hb']
    · rw [hslots, update_of_ne e]
  · by_cases e : s' = s
    · subst e
      simp [hslots, hvalue]
    · rw [hslots, update_of_ne e, h.slot, hplace]
      simp [Ne.symm e]
  · simp [hlog, h.dropped, hplace]
  · simp [hboxes, h.fresh, hplace]

/-- A call drops the box that it owns, if it owns one. -/
theorem drop (hslots : m.inner.slots = c.shared.inner.slots)
    (hlog : ∀ b, m.log.count (.dropped b)
      = c.shared.log.count (.dropped b) + if (c.calls i).box = some b then 1 else 0)
    (hboxes : m.boxes = c.shared.boxes) (hbox : k.box = none) :
    ∃ place', Placed place' (⟨m, update c.calls i k⟩ : Config ι Memory Call) := by
  cases hbefore : (c.calls i).box with
  | none =>
    have hsame : ∀ b, m.log.count (.dropped b) = c.shared.log.count (.dropped b) := by
      intro b
      rw [hlog, hbefore]
      rfl
    exact ⟨place, h.stay (hbox.trans hbefore.symm) (fun s => by rw [hslots]) hsame hboxes⟩
  | some callback =>
    have hplace : place callback = .call i := (h.call i callback).mp hbefore
    refine ⟨_, h.move (b := callback) (p := .dropped) (fun b' hb => ?_) (fun b' => by simp [hbox])
      (fun j hj => ⟨?_, nofun⟩) (fun s b' _ => by rw [hslots]) (fun s => ?_) (fun b' hb' => ?_) ?_
      (fun b' _ => by rw [hboxes]) ?_⟩
    · exact Option.some.inj (hb.symm.trans hbefore)
    · rw [hplace]
      simpa using Ne.symm hj
    · rw [hslots, h.slot, hplace]
      simp
    · rw [hlog, hbefore]
      simp [Ne.symm hb']
    · rw [hlog, hbefore, h.dropped, hplace]
      simp
    · simp [hboxes, h.fresh, hplace]

end

end Placed

theorem Memory.count_drop (m : Memory) (deferred : Option Nat) (b : Nat) :
    (m.drop deferred).log.count (.dropped b)
      = m.log.count (.dropped b) + if deferred = some b then 1 else 0 := by
  cases deferred with
  | none => rfl
  | some callback =>
    by_cases e : callback = b <;> simp [Memory.drop, e]

/-- An event that is no drop. -/
theorem Memory.count_note (m : Memory) (condition : Bool) {e : Event} (b : Nat)
    (he : e ≠ .dropped b) : (m.note condition e).log.count (.dropped b)
      = m.log.count (.dropped b) := by
  cases condition with
  | false => rfl
  | true => exact List.count_cons_of_ne he

theorem CallbackInner.beginDispatch_callback (inner : CallbackInner) (slot : Nat) :
    (inner.beginDispatch.2.slots slot).callback = (inner.slots slot).callback := by
  dsimp only [CallbackInner.beginDispatch]
  split_ifs <;> rfl

/-- A write to one slot that keeps its callback. -/
theorem CallbackInner.callback_update {inner inner' : CallbackInner} {s : Nat}
    {value : CallbackSlot} (hslots : inner'.slots = update inner.slots s value)
    (hsame : value.callback = (inner.slots s).callback) (s' : Nat) :
    (inner'.slots s').callback = (inner.slots s').callback := by
  rw [hslots]
  by_cases e : s' = s
  · rw [e, update_self, hsame]
  · rw [update_of_ne e]

/-- **Every box is in one place**, over every run. -/
theorem run_placed {c : Config ι Memory Call} (h : (system cpu ι).Run (initial ι) c) :
    ∃ place, Placed place c := by
  refine h.reached (P := fun c => ∃ place, Placed place c) ?_ ⟨fun _ => .fresh, ?_⟩
  · rintro i c c' hrun hnext ⟨place, hplaced⟩
    have hleased := run_leased hrun
    cases hnext with
    | @call k idle starts =>
      refine ⟨place, hplaced.stay ?_ (fun _ => rfl) (fun _ => rfl) rfl⟩
      have hidle : c.calls i = Call.idle := idle
      rw [hidle]
      cases k <;> first | rfl | cases starts
    | @act m k step =>
      have hmove := move_of_mem step
      generalize hk : c.calls i = k₀ at hmove
      cases hmove with
      | allocate => exact ⟨_, hplaced.allocate hk⟩
      | noMemory | refuse | done =>
        exact ⟨_, hplaced.stay (by rw [hk]; rfl) (fun _ => rfl) (fun _ => rfl) rfl⟩
      | publish op =>
        cases op with
        | filled found free idle slots len next =>
          exact ⟨_, hplaced.publish hk free slots rfl
            (fun b => List.count_cons_of_ne (by simp)) rfl rfl⟩
      | reject =>
        refine hplaced.drop rfl (fun b => ?_) rfl rfl
        rw [Memory.count_drop, hk]
        rfl
      | cancel op =>
        cases op with
        | stale dead =>
          exact ⟨_, hplaced.stay (by rw [hk]; rfl) (fun _ => rfl) (fun _ => rfl) rfl⟩
        | taken bound current held «open» idle slots len next =>
          exact ⟨_, hplaced.take (by rw [hk]; rfl) held slots rfl
            (fun b => Memory.count_note _ true b (by simp)) rfl rfl⟩
        | deferred bound current held «open» busy slots len next =>
          exact ⟨_, hplaced.stay (by rw [hk]; rfl) (CallbackInner.callback_update slots rfl)
            (fun b => Memory.count_note _ true b (by simp)) rfl⟩
      | answer =>
        exact ⟨_, hplaced.stay (by rw [hk]; rfl) (by simp)
          (fun b => Memory.count_note _ _ b (by simp)) (by simp)⟩
      | dispatch =>
        exact ⟨_, hplaced.stay (by rw [hk]; rfl)
          (fun s => c.shared.inner.beginDispatch_callback s) (fun _ => rfl) rfl⟩
      | invoke =>
        exact ⟨_, hplaced.stay (by rw [hk]; rfl) (fun _ => rfl)
          (fun b => Memory.count_note _ true b (by simp)) rfl⟩
      | @finish lease rest =>
        obtain ⟨hserved, hop⟩ := hleased.running hk
        generalize c.shared.inner.finishDispatch lease = r at hop ⊢
        cases hop with
        | last closed one slots len next =>
          rw [hserved.held]
          exact ⟨_, hplaced.take (by rw [hk]; rfl) hserved.held slots rfl (fun _ => rfl) rfl
            rfl⟩
        | counted count more slots len next =>
          exact ⟨_, hplaced.stay (by rw [hk]; rfl) (CallbackInner.callback_update slots rfl)
            (fun _ => rfl) rfl⟩
      | discard | next =>
        refine hplaced.drop (by simp) (fun b => ?_) (by simp) rfl
        rw [Memory.count_drop, hk]
        rfl
  · exact ⟨by simp [initial, Call.box], by simp [initial, CallbackInner.new], by simp [initial],
      by simp [initial]⟩

end KernelAx.Timers

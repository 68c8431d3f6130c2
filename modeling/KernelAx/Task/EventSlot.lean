import Mathlib.Algebra.Group.Nat.Defs
import Mathlib.Tactic.SplitIfs
import KernelAx.Interleaving

/-!
# Tasks — the event slots of the interrupt diagnostics

An event is six words, stored one after the other between two steps of the version: odd while the
event is written, even when it is complete. A snapshot reads the words between two loads of the
version. One `publish` at a time and any number of snapshots run here over one slot, one access at
a time; the slot also remembers the events that were published.

While a snapshot's version stands, the slot is at rest, so the words it has read are those that are
there (`Point`).
-/

namespace KernelAx.Diagnostics

open Interleaving

/-- The words of an event. -/
inductive Field
  | sequence | kind | taskId | peerTaskId | flags | preemptDisableCount
  deriving DecidableEq

def Field.all : List Field := [.sequence, .kind, .taskId, .peerTaskId, .flags, .preemptDisableCount]

theorem Field.mem_all (f : Field) : f ∈ all := by
  cases f <;> decide

/-- The words of an event. -/
abbrev Event := Field → Nat

/-- The sequence lock and its words, with the events that were published. -/
structure EventSlot where
  version : Nat
  words : Event
  published : List Event

def EventSlot.new : EventSlot := ⟨0, fun _ => 0, []⟩

/-- `wrapping_add(1)`. -/
def wrappingSucc (version : Nat) : Nat := (version + 1) % 2 ^ 64

/-- The program points of `publish` and `snapshot`. -/
inductive Call
  | idle
  | publish (event : Event)
  | store (event : Event) (writingVersion : Nat) (rest : List Field)
  | snapshot (expectedSequence : Nat)
  | read (expectedSequence firstVersion : Nat) (event : Event) (rest : List Field)
  | returned (expectedSequence : Nat) (event : Option Event)

def step (s : EventSlot) : Call → List (EventSlot × Call)
  | .idle => []
  | .publish event =>
    let writingVersion := wrappingSucc s.version
    [({ s with version := writingVersion }, .store event writingVersion Field.all)]
  | .store event writingVersion (f :: rest) =>
    [({ s with words := Function.update s.words f (event f) }, .store event writingVersion rest)]
  | .store event writingVersion [] =>
    [({ s with
        version := wrappingSucc writingVersion
        published := event :: s.published }, .idle)]
  | .snapshot expectedSequence =>
    if expectedSequence = 0 then [(s, .returned expectedSequence none)]
    else if s.version % 2 ≠ 0 then [(s, .returned expectedSequence none)]
    else [(s, .read expectedSequence s.version (fun _ => 0) Field.all)]
  | .read expectedSequence firstVersion event (f :: rest) =>
    [(s, .read expectedSequence firstVersion (Function.update event f (s.words f)) rest)]
  | .read expectedSequence firstVersion event [] =>
    [(s, .returned expectedSequence
      (if firstVersion = s.version ∧ s.version % 2 = 0 ∧ event .sequence = expectedSequence then
        some event else none))]
  | .returned _ _ => [(s, .idle)]

def Call.Writes : Call → Prop
  | .publish _ | .store .. => True
  | _ => False

/-- Producers are serialized; anyone may take a snapshot at any time. -/
inductive Starts {ι : Type} (c : Config ι EventSlot Call) : Call → Prop
  | publish (event : Event) (serialized : ∀ i, ¬ (c.calls i).Writes) : Starts c (.publish event)
  | snapshot (expectedSequence : Nat) : Starts c (.snapshot expectedSequence)

def system (ι : Type) : System ι EventSlot Call where
  idle := .idle
  Starts := Starts
  step _ := step

def initial (ι : Type) : Config ι EventSlot Call := ⟨.new, fun _ => .idle⟩

/-! ### What calls know -/

/-- No event is being written: the words are those of the last one. -/
structure AtRest (s : EventSlot) : Prop where
  version : s.version = 2 * s.published.length
  words : ∀ event ∈ s.published.head?, s.words = event
  fresh : s.published = [] → s.words .sequence = 0

def Call.Point (s : EventSlot) : Call → Prop
  | .store event writingVersion rest => writingVersion = s.version ∧
      s.version = 2 * s.published.length + 1 ∧ ∀ f, f ∉ rest → s.words f = event f
  | .read expectedSequence firstVersion event rest => expectedSequence ≠ 0 ∧
      firstVersion % 2 = 0 ∧ firstVersion ≤ s.version ∧
      (firstVersion = s.version → ∀ f, f ∉ rest → event f = s.words f)
  | .returned expectedSequence (some event) =>
      event ∈ s.published ∧ event .sequence = expectedSequence
  | _ => True

/-- At most one call writes, and the words are those of an event when none does. -/
structure Intact {ι : Type} (c : Config ι EventSlot Call) : Prop where
  alone : ∀ i j, (c.calls i).Writes → (c.calls j).Writes → i = j
  point : ∀ i, (c.calls i).Point c.shared
  atRest : (∀ i event v rest, c.calls i ≠ .store event v rest) → AtRest c.shared

/-! ### Steps -/

theorem wrappingSucc_eq (version : Nat) (h : version + 1 < 2 ^ 64) :
    wrappingSucc version = version + 1 := Nat.mod_eq_of_lt h

/-- A write does not disturb a snapshot: the version moves on, or was odd before. -/
theorem Call.Point.write {s s' : EventSlot} {k : Call} (h : k.Point s) (hk : ¬ k.Writes)
    (version : s.version < s'.version ∨ s'.version = s.version ∧ s.version % 2 = 1)
    (published : s.published ⊆ s'.published) : k.Point s' := by
  cases k with
  | publish | store => exact absurd trivial hk
  | idle | snapshot => trivial
  | read expectedSequence firstVersion event rest =>
    obtain ⟨hexpected, heven, hle, -⟩ := h
    exact ⟨hexpected, heven, by omega, fun heq => by omega⟩
  | returned expectedSequence event =>
    cases event with
    | none => trivial
    | some event => exact ⟨published h.1, h.2⟩

variable {ι : Type} [DecidableEq ι] {c c' : Config ι EventSlot Call} {i : ι} {k₀ k : Call}

namespace Intact

variable (h : Intact c)
include h

/-- The call `i` goes on to `k` and leaves `s`. -/
theorem update {s : EventSlot} (alone : k.Writes → ∀ j, (c.calls j).Writes → j = i)
    (point : k.Point s) (others : ∀ j, j ≠ i → (c.calls j).Point s)
    (atRest : (∀ event v rest, k ≠ .store event v rest) →
      (∀ j, j ≠ i → ∀ event v rest, c.calls j ≠ .store event v rest) → AtRest s) :
    Intact ⟨s, Function.update c.calls i k⟩ where
  alone j₁ j₂ h₁ h₂ := by
    have hother {j : ι} (hj : j ≠ i) (h' : (Function.update c.calls i k j).Writes) :
        (c.calls j).Writes := by simpa [hj] using h'
    by_cases hj₁ : j₁ = i <;> by_cases hj₂ : j₂ = i
    · exact hj₁.trans hj₂.symm
    · subst hj₁
      exact (alone (by simpa using h₁) j₂ (hother hj₂ h₂)).symm
    · subst hj₂
      exact alone (by simpa using h₂) j₁ (hother hj₁ h₁)
    · exact h.alone j₁ j₂ (hother hj₁ h₁) (hother hj₂ h₂)
  point j := by
    rcases eq_or_ne j i with rfl | hj
    · simpa using point
    · simpa [hj] using others j hj
  atRest hstore := by
    refine atRest (fun event v rest => ?_) fun j hj event v rest => ?_
    · simpa using hstore i event v rest
    · simpa [hj] using hstore j event v rest

/-- A step of a snapshot. -/
theorem reads (hi : c.calls i = k₀) (hk₀ : ¬ k₀.Writes) (hk : ¬ k.Writes)
    (point : k.Point c.shared) : Intact ⟨c.shared, Function.update c.calls i k⟩ := by
  refine h.update (fun h => absurd h hk) point (fun j _ => h.point j) fun _ hothers => ?_
  refine h.atRest fun j event v rest hj => ?_
  rcases eq_or_ne j i with rfl | hne
  · rw [← hi, hj] at hk₀
    exact hk₀ trivial
  · exact hothers j hne event v rest hj

/-- A step of the writer. -/
theorem writes {s : EventSlot} (hi : c.calls i = k₀) (hk₀ : k₀.Writes) (point : k.Point s)
    (version : c.shared.version < s.version ∨
      s.version = c.shared.version ∧ c.shared.version % 2 = 1)
    (published : c.shared.published ⊆ s.published)
    (atRest : (∀ event v rest, k ≠ .store event v rest) → AtRest s) :
    Intact ⟨s, Function.update c.calls i k⟩ := by
  rw [← hi] at hk₀
  exact h.update (fun _ j hj => h.alone j i hj hk₀) point (fun j hj => (h.point j).write
    (fun hj' => hj (h.alone j i hj' hk₀)) version published) fun hk _ => atRest hk

theorem act {s : EventSlot} (hi : c.calls i = k₀) (hstep : (s, k) ∈ step c.shared k₀)
    (nowrap : s.published.length < 2 ^ 63) : Intact ⟨s, Function.update c.calls i k⟩ := by
  have hpoint := h.point i
  rw [hi] at hpoint
  cases k₀ with
  | idle => cases hstep
  | publish event =>
    cases List.mem_singleton.mp hstep
    have hrest : AtRest c.shared := h.atRest fun j event' v rest hj => by
      obtain rfl := h.alone j i (by rw [hj]; trivial) (by rw [hi]; trivial)
      cases hj.symm.trans hi
    have hversion := hrest.version
    have hsucc := wrappingSucc_eq c.shared.version (by
      dsimp only at nowrap
      omega)
    refine h.writes hi trivial ⟨rfl, ?_, fun f hf => absurd f.mem_all hf⟩ (.inl ?_)
      (fun _ h => h) fun hk => absurd rfl (hk _ _ _)
    · exact hsucc.trans (congrArg (· + 1) hversion)
    · exact Nat.lt_of_lt_of_eq (Nat.lt_succ_self _) hsucc.symm
  | store event v rest =>
    obtain ⟨rfl, hversion, hwords⟩ := hpoint
    cases rest with
    | cons f rest =>
      cases List.mem_singleton.mp hstep
      refine h.writes hi trivial ⟨rfl, hversion, fun g hg => ?_⟩ (.inr ⟨rfl, by omega⟩)
        (fun _ h => h) fun hk => absurd rfl (hk _ _ _)
      rcases eq_or_ne g f with rfl | hgf
      · exact Function.update_self ..
      · exact (Function.update_of_ne hgf ..).trans (hwords g (by simp [hgf, hg]))
    | nil =>
      cases List.mem_singleton.mp hstep
      rw [List.length_cons] at nowrap
      have hsucc := wrappingSucc_eq c.shared.version (by omega)
      refine h.writes hi trivial trivial (.inl ?_) (List.subset_cons_self ..)
        fun _ => ⟨?_, ?_, nofun⟩
      · exact Nat.lt_of_lt_of_eq (Nat.lt_succ_self _) hsucc.symm
      · rw [hsucc, hversion]
        rfl
      · rintro _ ⟨⟩
        exact funext fun f => hwords f List.not_mem_nil
  | snapshot expectedSequence =>
    simp only [step] at hstep
    split_ifs at hstep with hzero hodd <;> cases List.mem_singleton.mp hstep
    · exact h.reads hi id id trivial
    · exact h.reads hi id id trivial
    · exact h.reads hi id id
        ⟨hzero, not_not.mp hodd, Nat.le_refl _, fun _ f hf => absurd f.mem_all hf⟩
  | read expectedSequence firstVersion event rest =>
    obtain ⟨hexpected, heven, hle, hwords⟩ := hpoint
    cases rest with
    | cons f rest =>
      cases List.mem_singleton.mp hstep
      refine h.reads hi id id ⟨hexpected, heven, hle, fun heq g hg => ?_⟩
      rcases eq_or_ne g f with rfl | hgf
      · exact Function.update_self ..
      · exact (Function.update_of_ne hgf ..).trans (hwords heq g (by simp [hgf, hg]))
    | nil =>
      cases List.mem_singleton.mp hstep
      refine h.reads hi id id ?_
      split_ifs with hsame
      · -- the version is even, so no event is being written
        have hrest : AtRest c.shared := h.atRest fun j event' v rest hj => by
          have hj' := h.point j
          rw [hj] at hj'
          have := hj'.2.1
          omega
        obtain rfl : event = c.shared.words := funext fun f => hwords hsame.1 f List.not_mem_nil
        refine ⟨?_, hsame.2.2⟩
        cases hpublished : c.shared.published with
        | nil => exact absurd (hsame.2.2.symm.trans (hrest.fresh hpublished)) hexpected
        | cons event events =>
          rw [hrest.words event (by rw [hpublished]; rfl)]
          exact List.mem_cons_self
      · trivial
  | returned expectedSequence event =>
    cases List.mem_singleton.mp hstep
    exact h.reads hi id id trivial

theorem call (idle : c.calls i = .idle) (starts : Starts c k) : Intact (c.calling i k) := by
  cases starts with
  | publish event serialized =>
    refine h.update (fun _ j hj => absurd hj (serialized j)) trivial (fun j _ => h.point j)
      fun _ _ => h.atRest fun j event v rest hj => serialized j ?_
    rw [hj]
    trivial
  | snapshot expectedSequence => exact h.reads idle id id trivial

end Intact

/-! ### Runs -/

theorem published_le {s s' : EventSlot} {k' : Call} (hstep : (s', k') ∈ step s k) :
    s.published.length ≤ s'.published.length := by
  cases k with
  | idle => cases hstep
  | store event v rest | read _ _ event rest =>
    cases rest <;> cases List.mem_singleton.mp hstep <;> simp
  | publish | returned =>
    cases List.mem_singleton.mp hstep
    exact Nat.le_refl _
  | snapshot =>
    simp only [step] at hstep
    split_ifs at hstep <;> cases List.mem_singleton.mp hstep <;> exact Nat.le_refl _

theorem intact_run (run : (system ι).Run (initial ι) c)
    (nowrap : c.shared.published.length < 2 ^ 63) : Intact c := by
  refine run.invariant (P := fun c => c.shared.published.length < 2 ^ 63 → Intact c) ?_ ?_ nowrap
  · intro i c c' hnext h nowrap
    cases hnext with
    | call idle starts => exact (h nowrap).call idle starts
    | act hstep => exact (h (Nat.lt_of_le_of_lt (published_le hstep) nowrap)).act rfl hstep nowrap
  · exact fun _ => ⟨nofun, fun _ => trivial, fun _ => ⟨rfl, nofun, fun _ => rfl⟩⟩

/-- **Snapshots are not torn.**  As long as the version has not wrapped around, the event that a
snapshot returns was published as a whole, under the sequence that was asked for. -/
theorem snapshot_untorn (run : (system ι).Run (initial ι) c)
    (nowrap : c.shared.published.length < 2 ^ 63) {expectedSequence : Nat} {event : Event}
    (returned : c.calls i = .returned expectedSequence (some event)) :
    event ∈ c.shared.published ∧ event .sequence = expectedSequence := by
  have hpoint := (intact_run run nowrap).point i
  rw [returned] at hpoint
  exact hpoint

/-- The next publication is called while a snapshot is reading and has written three words when the
snapshot has returned: the words are torn, the event is not. -/
theorem snapshot_untorn_overlapping : ∃ (c : Config (Fin 2) EventSlot Call) (event : Event),
    (system (Fin 2)).Run (initial (Fin 2)) c ∧ c.calls 1 = .returned 7 (some event) ∧
      c.shared.words .sequence = 8 ∧ c.shared.words .flags = 7 ∧
      event ∈ c.shared.published ∧ event .sequence = 7 := by
  have hpublish := (System.Run.calling (S := system (Fin 2)) (c := initial (Fin 2)) (i := 0) .refl
    rfl (Starts.publish (fun _ => 7) fun _ => id)).exec (List.replicate 8 0)
  have hreading := (hpublish.calling (i := 1) rfl (Starts.snapshot 7)).exec (List.replicate 3 1)
  have hoverlap := (hreading.calling (i := 0) rfl (Starts.publish (fun _ => 8)
    (Fin.forall_fin_two.mpr ⟨id, id⟩))).exec (List.replicate 5 1 ++ List.replicate 4 0)
  exact ⟨_, _, hoverlap, rfl, rfl, rfl, snapshot_untorn (i := 1) hoverlap (by decide) rfl⟩

end KernelAx.Diagnostics

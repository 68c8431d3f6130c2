import KernelAx.Exits.References

/-!
# Exited tasks — the recycler is woken

While tasks are queued, a recycler whose poll returned `Pending` has been woken with the pending bit
set, or its retry counts down, or a call that publishes has not come to its last store. A batch
leaves behind tasks that it retained, and then arms the retry, or tasks that exited meanwhile, whose
exits publish. An armed retry counts down from at most `GC_RETRY_MAX_TICKS`.
-/

namespace KernelAx.Exits

open Interleaving
open Function (update)

variable {ι : Type} {l l' : List TaskPtr} {c c' : Config (Option ι) Memory Call}

def Publishing (c : Config (Option ι) Memory Call) : Prop :=
  ∃ i, c.calls (some i) = .notify ∨ c.calls (some i) = .publish

def Signalled (c : Config (Option ι) Memory Call) : Prop :=
  c.shared.pending = true ∨ Publishing c

def Armed (c : Config (Option ι) Memory Call) : Prop :=
  0 < c.shared.retryTicks ∨ Signalled c

/-- The waker of the latest `register` has been invoked, or is about to be. -/
def Roused (c : Config (Option ι) Memory Call) : Prop :=
  c.shared.history.woken = true ∨ ∃ i, c.calls (some i) = .wake

def Registered (c : Config (Option ι) Memory Call) : Prop :=
  c.shared.waiter = true ∨ c.shared.history.woken = true

/-- The points of the recycler, for the list `l` in the queue. -/
def Gc.Wakes (c : Config (Option ι) Memory Call) (l : List TaskPtr) : Gc → Prop
  | .poll | .register => l ≠ [] → Armed c
  | .recheck => (l ≠ [] → Armed c) ∧ Registered c
  | .waiting => (l ≠ [] → Armed c) ∧ Registered c ∧ (c.shared.pending = true → Roused c)
  | .batch | .requeue _ _ _ | .arm => True
  -- what is queued behind the snapshot was retained or is new
  | .scan left retained | .checkCpu _ left retained | .checkWake _ left retained
  | .unwrap _ left retained => left < l.length → retained = true ∨ Signalled c
  | .finish retained => l ≠ [] → retained = true ∨ Signalled c
  | .armDelay delay | .armTicks delay => gcRetryMinTicks ≤ delay ∧ delay ≤ gcRetryMaxTicks
  | .resetTicks | .resetDelay => l ≠ [] → Signalled c

/-- What the wake state of a configuration keeps. -/
structure Watched (c : Config (Option ι) Memory Call) (l : List TaskPtr) : Prop where
  bounded : c.shared.retryTicks ≤ gcRetryMaxTicks
  wakes : ∀ g, c.calls none = .gc g → g.Wakes c l

/-! ### Calls -/

/-- What a step of another call leaves to the recycler. -/
structure Sustains (c : Config (Option ι) Memory Call) (l : List TaskPtr)
    (c' : Config (Option ι) Memory Call) (l' : List TaskPtr) : Prop where
  queue : l' = l ∨ Signalled c'
  bounded : c'.shared.retryTicks ≤ c.shared.retryTicks
  signalled : Signalled c → Signalled c'
  armed : Armed c → Armed c'
  registered : Registered c → Registered c'
  roused : Registered c → (c.shared.pending = true → Roused c) →
    c'.shared.pending = true → Roused c'

theorem Gc.Wakes.sustained {g : Gc} (hg : g.Wakes c l) (h : Sustains c l c' l') :
    g.Wakes c' l' := by
  have harmed : (l ≠ [] → Armed c) → l' ≠ [] → Armed c' := by
    intro hl hl'
    rcases h.queue with rfl | hsignal
    · exact h.armed (hl hl')
    · exact .inr hsignal
  have hretained : ∀ (r : Bool) (left : Nat), (left < l.length → r = true ∨ Signalled c) →
      left < l'.length → r = true ∨ Signalled c' := by
    intro r left hl hl'
    rcases h.queue with rfl | hsignal
    · exact (hl hl').imp_right h.signalled
    · exact .inr hsignal
  cases g with
  | poll | register => exact harmed hg
  | recheck => exact ⟨harmed hg.1, h.registered hg.2⟩
  | waiting => exact ⟨harmed hg.1, h.registered hg.2.1, h.roused hg.2.1 hg.2.2⟩
  | batch | requeue | arm => trivial
  | scan | checkCpu | checkWake | unwrap => exact hretained _ _ hg
  | finish r =>
    intro hl'
    exact hretained r 0 (fun hl => hg (List.length_pos_iff.mp hl)) (List.length_pos_iff.mpr hl')
  | armDelay | armTicks => exact hg
  | resetTicks | resetDelay =>
    intro hl'
    rcases h.queue with rfl | hsignal
    · exact h.signalled (hg hl')
    · exact hsignal

section Act

variable [DecidableEq ι] {i : ι} {m' : Memory} {k k' : Call}

theorem Publishing.act (h : Publishing c)
    (hk : c.calls (some i) = .notify ∨ c.calls (some i) = .publish → k' = .notify ∨ k' = .publish) :
    Publishing ⟨m', update c.calls (some i) k'⟩ := by
  obtain ⟨j, hj⟩ := h
  by_cases hji : j = i
  · subst hji
    exact ⟨j, by simpa using hk hj⟩
  · exact ⟨j, by simpa [hji] using hj⟩

theorem Roused.act (h : Roused c) (hwoken : m'.history.woken = c.shared.history.woken)
    (hk : c.calls (some i) ≠ .wake) : Roused ⟨m', update c.calls (some i) k'⟩ := by
  rcases h with hw | ⟨j, hj⟩
  · exact .inl (hwoken.trans hw)
  · have hji : j ≠ i := fun heq => hk (heq ▸ hj)
    exact .inr ⟨j, by simpa [hji] using hj⟩

theorem Memory.woken_wake {m : Memory} (h : m.waiter = true ∨ m.history.woken = true) :
    m.wake.history.woken = true := by
  simpa [Memory.wake, or_comm] using h

theorem Sustains.of_quiet (hcall : c.calls (some i) = k)
    (hk : k ≠ .notify ∧ k ≠ .publish ∧ k ≠ .wake) (hqueue : l' = l ∨ k' = .notify)
    (hpending : m'.pending = c.shared.pending) (hticks : m'.retryTicks = c.shared.retryTicks)
    (hwaiter : m'.waiter = c.shared.waiter)
    (hwoken : m'.history.woken = c.shared.history.woken) :
    Sustains c l ⟨m', update c.calls (some i) k'⟩ l' := by
  subst hcall
  have hsignalled : Signalled c → Signalled ⟨m', update c.calls (some i) k'⟩ :=
    Or.imp hpending.trans (·.act fun h => absurd h (not_or.mpr ⟨hk.1, hk.2.1⟩))
  refine ⟨hqueue.imp_right fun hk' => .inr ⟨i, .inl ?_⟩, hticks.le, hsignalled,
    Or.imp (fun h => hticks ▸ h) hsignalled, ?_,
    fun _ h hp => (h (hpending ▸ hp)).act hwoken hk.2.2⟩
  · simpa using hk'
  · exact Or.imp hwaiter.trans hwoken.trans

theorem sustains (hacts : Acts c.shared l k m' l' k') (hcall : c.calls (some i) = k) :
    Sustains c l ⟨m', update c.calls (some i) k'⟩ l' := by
  cases hacts with
  | references | spawn => exact .of_quiet hcall ⟨nofun, nofun, nofun⟩ (.inl rfl) rfl rfl rfl rfl
  | exit => exact .of_quiet hcall ⟨nofun, nofun, nofun⟩ (.inr rfl) rfl rfl rfl rfl
  | exitStops | requestNothing =>
    exact .of_quiet hcall ⟨nofun, nofun, nofun⟩ (.inl rfl) rfl rfl rfl rfl
  | request => exact .of_quiet hcall ⟨nofun, nofun, nofun⟩ (.inl rfl) rfl rfl rfl rfl
  | tick =>
    have hquiet : c.calls (some i) ≠ .notify ∧ c.calls (some i) ≠ .publish := by simp [hcall]
    unfold Memory.retryTimerTick
    split_ifs with hzero hone
    · exact .of_quiet hcall ⟨nofun, nofun, nofun⟩ (.inl rfl) rfl rfl rfl rfl
    · exact ⟨.inl rfl, Nat.zero_le _, fun _ => .inl rfl, fun _ => .inr (.inl rfl),
        fun h => .inr (Memory.woken_wake h), fun h _ _ => .inl (Memory.woken_wake h)⟩
    · have hsignalled : ∀ {m'}, m'.pending = c.shared.pending → Signalled c →
          Signalled ⟨m', update c.calls (some i) .done⟩ := fun hpending =>
        Or.imp hpending.trans (·.act fun h => absurd h (not_or.mpr hquiet))
      refine ⟨.inl rfl, Nat.sub_le _ _, hsignalled rfl, fun _ => .inl ?_, id,
        fun _ h hp => (h hp).act rfl (by simp [hcall])⟩
      simp only
      omega
  | notify =>
    have hsignal : Publishing ⟨{ c.shared with retryTicks := 0 },
        update c.calls (some i) .publish⟩ := ⟨i, by simp⟩
    exact ⟨.inl rfl, Nat.zero_le _, fun _ => .inr hsignal, fun _ => .inr (.inr hsignal), id,
      fun _ h hp => (h hp).act rfl (by simp [hcall])⟩
  | publish =>
    exact ⟨.inl rfl, le_rfl, fun _ => .inl rfl, fun _ => .inr (.inl rfl), id,
      fun _ _ _ => .inr ⟨i, by simp⟩⟩
  | wake =>
    have hquiet : c.calls (some i) ≠ .notify ∧ c.calls (some i) ≠ .publish := by simp [hcall]
    have hsignalled : Signalled c → Signalled ⟨c.shared.wake, update c.calls (some i) .done⟩ :=
      Or.imp id (·.act fun h => absurd h (not_or.mpr hquiet))
    exact ⟨.inl rfl, le_rfl, hsignalled, Or.imp id hsignalled,
      fun h => .inr (Memory.woken_wake h), fun h _ _ => .inl (Memory.woken_wake h)⟩

end Act

/-! ### The recycler -/

section Recycle

variable [DecidableEq ι] {m' : Memory} {g : Gc} {k' : Call}

theorem Signalled.recycle (h : Signalled c) (hpending : m'.pending = c.shared.pending) :
    Signalled ⟨m', update c.calls none k'⟩ :=
  h.imp hpending.trans fun ⟨i, hi⟩ => ⟨i, by simpa using hi⟩

theorem Armed.recycle (h : Armed c) (hpending : m'.pending = c.shared.pending)
    (hticks : m'.retryTicks = c.shared.retryTicks) :
    Armed ⟨m', update c.calls none k'⟩ :=
  h.imp (fun h => hticks ▸ h) (·.recycle hpending)

theorem Gc.Wakes.recycles (hg : g.Wakes c l) (hrecycles : Recycles c.shared l g m' l' k')
    {g' : Gc} (hg' : k' = .gc g') : g'.Wakes ⟨m', update c.calls none k'⟩ l' := by
  cases hrecycles with
  | pollReady | recheckReady => cases hg'; trivial
  | poll => cases hg'; exact fun hl => (hg hl).recycle rfl rfl
  | register => cases hg'; exact ⟨fun hl => (hg hl).recycle rfl rfl, .inl rfl⟩
  | recheck quiet =>
    cases hg'
    exact ⟨fun hl => (hg.1 hl).recycle rfl rfl, hg.2, fun hp => by simp [quiet] at hp⟩
  | waiting => cases hg'; exact fun hl => (hg.1 hl).recycle rfl rfl
  | batch => cases hg'; exact fun hl => absurd hl (Nat.lt_irrefl _)
  | scanned =>
    cases hg'
    exact fun hl => (hg (List.length_pos_iff.mpr hl)).imp_right (·.recycle rfl)
  | drained => cases hg'; exact fun hl => absurd rfl hl
  | pop => cases hg'; exact fun hl => (hg (Nat.succ_lt_succ hl)).imp_right (·.recycle rfl)
  | unowned | unhanded | destroy => cases hg'; exact fun hl => (hg hl).imp_right (·.recycle rfl)
  | owned | handed | shared => cases hg'; trivial
  | fails | requeueStops => cases hg'
  | requeue | requeueDrops => cases hg'; exact fun _ => .inl rfl
  | finishArms => cases hg'; trivial
  | finishResets => cases hg'; exact fun hl => absurd rfl hl
  | finish remaining =>
    cases hg'
    exact fun hl => .inr (((hg hl).resolve_left Bool.false_ne_true).recycle rfl)
  | arm =>
    cases hg'
    simp only [Gc.Wakes, gcRetryMinTicks, gcRetryMaxTicks]
    omega
  | armDelay => cases hg'; exact hg
  | armTicks => cases hg'; exact fun _ => .inl hg.1
  | resetTicks => cases hg'; exact fun hl => (hg hl).recycle rfl
  | resetDelay => cases hg'; exact fun hl => .inr ((hg hl).recycle rfl)

omit [DecidableEq ι] in
theorem Gc.Wakes.bounded (hg : g.Wakes c l) (hrecycles : Recycles c.shared l g m' l' k')
    (hc : c.shared.retryTicks ≤ gcRetryMaxTicks) : m'.retryTicks ≤ gcRetryMaxTicks := by
  cases hrecycles with
  | armTicks => exact hg.2
  | resetTicks => exact Nat.zero_le _
  | _ => exact hc

theorem Watched.next {i : Option ι} (h : Watched c l) (hmoves : Moves c l i c' l') :
    Watched c' l' := by
  cases hmoves with
  | @call i k starts idle =>
    have hsustains : Sustains c l ⟨c.shared, update c.calls (some i) k⟩ l :=
      .of_quiet idle ⟨nofun, nofun, nofun⟩ (.inl rfl) rfl rfl rfl rfl
    refine ⟨h.bounded, fun g hg => ?_⟩
    exact (h.wakes g (by simpa using hg)).sustained hsustains
  | @act i m' l' k' acts =>
    have hsustains := sustains acts rfl
    refine ⟨hsustains.bounded.trans h.bounded, fun g hg => ?_⟩
    exact (h.wakes g (by simpa using hg)).sustained hsustains
  | @recycle g m' l' k' point recycles =>
    have hwakes := h.wakes g point
    exact ⟨hwakes.bounded recycles h.bounded, fun g' hg' =>
      hwakes.recycles recycles (by simpa using hg')⟩

omit [DecidableEq ι] in
theorem Watched.initial : Watched (initial ι) [] where
  bounded := Nat.zero_le _
  wakes g hg := by
    obtain rfl : Gc.poll = g := by simpa [Exits.initial] using hg
    exact fun hl => absurd rfl hl

/-- **No exited task is stranded.**  While tasks are queued and the latest poll of the recycler
returned `Pending`, its waker has been invoked and the pending bit is set, or the retry counts down,
or a call that publishes is between its stores; and an armed retry counts down from a number of
ticks between the two bounds. -/
theorem exited_never_stranded (hrun : (system ι).Run (initial ι) c) :
    (c.shared.isEmpty = false → c.calls none = .gc .waiting →
      (c.shared.pending = true ∧ c.shared.history.woken = true) ∨ 0 < c.shared.retryTicks ∨
        ∃ i, c.calls (some i) = .notify ∨ c.calls (some i) = .publish ∨
          c.calls (some i) = .wake) ∧
      c.shared.retryTicks ≤ gcRetryMaxTicks ∧
      ∀ delay, c.calls none = .gc (.armTicks delay) →
        gcRetryMinTicks ≤ delay ∧ delay ≤ gcRetryMaxTicks := by
  obtain ⟨l, hc, hwatched⟩ := Coherent.run hrun.when (Q := Watched) .initial
    fun _ _ hmoves h => h.next hmoves
  refine ⟨fun hempty hwaiting => ?_, hwatched.bounded, fun delay hdelay => hwatched.wakes _ hdelay⟩
  have hl : l ≠ [] := by
    rintro rfl
    simp [Memory.isEmpty, hc.kept.chained.isEmpty] at hempty
  obtain ⟨harmed, -, hroused⟩ := hwatched.wakes _ hwaiting
  rcases harmed hl with hticks | hpending | ⟨i, hi⟩
  · exact .inr (.inl hticks)
  · rcases hroused hpending with hwoken | ⟨i, hi⟩
    · exact .inl ⟨hpending, hwoken⟩
    · exact .inr (.inr ⟨i, .inr (.inr hi)⟩)
  · exact .inr (.inr ⟨i, hi.imp_right .inl⟩)

/-- A task exits and is still referenced when the recycler comes to it. -/
abbrev retainedCalls : List (Option Nat × Call) :=
  [(some 0, .spawn 0 true), (some 1, .exit 0)]

abbrev retained : Config (Option Nat) Memory Call :=
  (system Nat).exec ((initial Nat).callingAll retainedCalls)
    ([some 0, some 1, some 1, some 1, some 1] ++ List.replicate 15 none)

theorem retained_never_stranded :
    retained.shared.isEmpty = false ∧ retained.calls none = .gc .waiting ∧
      ((retained.shared.pending = true ∧ retained.shared.history.woken = true) ∨
        0 < retained.shared.retryTicks ∨
          ∃ i, retained.calls (some i) = .notify ∨ retained.calls (some i) = .publish ∨
            retained.calls (some i) = .wake) := by
  have hrun : (system Nat).Run (initial Nat) retained := by
    have hmem : ∀ p ∈ retainedCalls, p.1.isSome = true ∧ p.2.Starts := by
      intro p hp
      rcases List.mem_cons.mp hp with rfl | hp
      · exact ⟨rfl, trivial⟩
      · obtain rfl := List.mem_singleton.mp hp
        exact ⟨rfl, trivial⟩
    refine (System.Run.callingAll .refl (by decide) (fun p hp => ?_) fun p hp _ => ?_).exec _
    · obtain ⟨i, hi⟩ := Option.isSome_iff_exists.mp (hmem p hp).1
      rw [hi]
      rfl
    · exact (hmem p hp).2
  have hempty : retained.shared.isEmpty = false := rfl
  have hwaiting : retained.calls none = .gc .waiting := rfl
  exact ⟨hempty, hwaiting, (exited_never_stranded hrun).1 hempty hwaiting⟩

end Recycle

end KernelAx.Exits

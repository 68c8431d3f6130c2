import KernelAx.Task.HandoffLedger

/-!
# Tasks — what the CPU handoff guarantees

Read off the ledger of a configuration: who returned which reference, and that the slot is empty
once every call has returned and the owner is gone. A token lapses when it stops being the owner:
since marks never store the same token twice it does not come back, so a late finish finds another
owner or none.
-/

namespace KernelAx.Handoff

open Interleaving

variable {ι : Type}

/-! ### Returned references and issued tokens -/

section Runs

variable {c : Config ι (Words ι) (Call ι)} {g : Ledger ι}

def Call.InProgress : Call ι → Prop
  | .idle | .published _ | .marked _ | .finished _ => False
  | _ => True

/-- A finish with the token `expected`, before it has cleared the owner. -/
def Call.Finishes (expected : BitVec 64) : Call ι → Prop
  | .finishLoad token | .finishClear token | .finishClearPending token => token = expected
  | _ => False

variable {i j : ι} {token : BitVec 64} {s' : Words ι} {k' : Call ι}

theorem returned_unique (h : (outline ι).Holds g c) {task : ι}
    (hi : (c.calls i).returned = some task) (hj : (c.calls j).returned = some task) : i = j :=
  Option.some.inj ((((h.2 i).received task).mpr hi).symm.trans (((h.2 j).received task).mpr hj))

theorem issued_unique (h : (outline ι).Holds g c)
    (hi : c.calls i = .marked (some token) ∨ c.calls i = .markStore token)
    (hj : c.calls j = .marked (some token)) : i = j := by
  have htaker : g.taker (generationOf token) = some i := by
    have hread := (h.2 i).read
    rcases hi with hi | hi <;> rw [hi] at hread <;> exact hread.2
  have hread := (h.2 j).read
  rw [hj] at hread
  exact Option.some.inj (htaker.symm.trans hread.2)

theorem slot_empty (h : (outline ι).Holds g c)
    (hrest : ∀ i, ¬ (c.calls i).InProgress) (hnone : c.shared.cpuHandoff = cpuOwnerNone) :
    g.slot = none := by
  cases hkeeper : g.keeper with
  | none => rw [Ledger.slot, hkeeper]; rfl
  | some keeper =>
    cases keeper with
    | publisher i =>
      have hpublishing := (h.2 i).publishing.mp hkeeper
      have hi := hrest i
      cases hk : c.calls i <;> simp_all [Call.Publishing, Call.InProgress]
    | owner task =>
      exact absurd none_plain (hnone ▸ h.1.flag.mpr ⟨task, hkeeper⟩)
    | finisher i task =>
      have hfinishing := (h.2 i).finishing.mp ⟨task, hkeeper⟩
      have hi := hrest i
      cases hk : c.calls i <;> simp_all [Call.Finishing, Call.InProgress]

theorem deferred_of_wake (h : (outline ι).Holds g c) {task : ι}
    (hi : c.calls i = .finished (.wake task)) : c.calls task = .published .deferred := by
  have hreceiver : g.receiver task = some i := ((h.2 i).received task).mpr (by rw [hi]; rfl)
  have hunpassed : ¬ ¬ g.Passed task := fun hno => hno (.inr (by rw [hreceiver]; simp))
  have hunslotted : g.keeper ≠ some (.publisher task) := fun hkeeper => by
    have hslot : g.slot = some task := by rw [Ledger.slot, hkeeper]; rfl
    simp [h.1.unreturned task hslot] at hreceiver
  have href := (h.2 task).reference
  cases hk : c.calls task with
  | published result =>
    cases result with
    | deferred => rfl
    | ready other | occupied other =>
      obtain rfl : other = task := by simpa [hk, Call.Reference] using href
      have hself := ((h.2 other).received other).mpr (by rw [hk]; rfl)
      obtain rfl : i = other := Option.some.inj (hreceiver.symm.trans hself)
      cases hi.symm.trans hk
  | publishFlag | publishTake =>
    exact absurd ((h.2 task).publishing.mpr (by rw [hk]; trivial)) hunslotted
  | _ =>
    rw [hk] at href
    exact absurd href hunpassed

variable [DecidableEq ι]

/-! ### A finish whose token has lapsed -/

omit [DecidableEq ι] in
theorem step_cpuHandoff {s : Words ι} {k : Call ι} (h : (s', k') ∈ step i s k) :
    s'.cpuHandoff = s.cpuHandoff ∨ s'.cpuHandoff = cpuOwnerNone ∨
      (k = .publishFlag s.cpuHandoff ∧ s'.cpuHandoff = s.cpuHandoff ||| cpuOwnerWakePending) ∨
      k = .markStore s'.cpuHandoff := by
  cases k <;> simp only [step] at h <;> (try split_ifs at h) <;>
    (try cases List.mem_singleton.mp h) <;> simp_all

omit [DecidableEq ι] in
theorem step_finishes {s : Words ι} {k : Call ι} (h : (s', k') ∈ step i s k)
    (hk : k'.Finishes token) : k.Finishes token := by
  cases k <;> simp only [step] at h <;> (try split_ifs at h) <;>
    (try cases List.mem_singleton.mp h) <;> simp_all [Call.Finishes]

theorem marked_stays {c' : Config ι (Words ι) (Call ι)} (hnext : (system ι).Next j c c')
    (hi : c.calls i = .marked (some token)) : c'.calls i = .marked (some token) :=
  hnext.returned hi (fun h => by cases h) fun _ => rfl

theorem issued_of_finishes (h : (system ι).Run initial c) :
    ∀ {i : ι} {token : BitVec 64}, (c.calls i).Finishes token →
      ∃ j, c.calls j = .marked (some token) := by
  refine h.invariant (P := fun c => ∀ {i : ι} {token : BitVec 64}, (c.calls i).Finishes token →
    ∃ j, c.calls j = .marked (some token)) ?_ (fun h => h.elim)
  intro j c c' hnext hc i token hi
  obtain ⟨l, hl⟩ : ∃ l, c.calls l = .marked (some token) := by
    by_cases hij : i = j
    · subst hij
      rcases hnext.self with ⟨-, -, starts⟩ | step
      · generalize c'.calls i = k at hi starts
        cases starts with
        | publish | mark => exact hi.elim
        | @finish l issuedToken issued =>
          obtain rfl : issuedToken = token := hi
          exact ⟨l, issued⟩
      · exact hc (step_finishes step hi)
    · exact hc (hnext.of_ne hij ▸ hi)
  exact ⟨l, marked_stays hnext hl⟩

/-- The finish `i` with the issued `token`, which is not the owner. -/
structure Lapsed (c : Config ι (Words ι) (Call ι)) (i : ι) (token : BitVec 64) : Prop where
  issued : ∃ j, c.calls j = .marked (some token)
  unowned : c.shared.cpuHandoff ≠ token
  unflagged : c.shared.cpuHandoff ≠ token ||| cpuOwnerWakePending
  point : (c.calls i).Finishes token ∨ c.calls i = .finished .alreadyCleared ∨
    c.calls i = .finished .stale

omit [DecidableEq ι] in
theorem Lapsed.isToken {t : BitVec 64} (h : Lapsed c i t) (hg : (outline ι).Holds g c) :
    Token t := by
  obtain ⟨j, hj⟩ := h.issued
  have hread := (hg.2 j).read
  rw [hj] at hread
  exact hread.1

omit [DecidableEq ι] in
/-- The owner word does not come back to a lapsed token: every mark stores a token of its own. -/
theorem Lapsed.words (h : Lapsed c i token) (hg : (outline ι).Holds g c)
    (hstep : (s', k') ∈ step j c.shared (c.calls j)) :
    s'.cpuHandoff ≠ token ∧ s'.cpuHandoff ≠ token ||| cpuOwnerWakePending := by
  have htoken := h.isToken hg
  have hread := (hg.2 j).read
  rcases step_cpuHandoff hstep with hsame | hnone | ⟨hk, hflag⟩ | hk
  · rw [hsame]
    exact ⟨h.unowned, h.unflagged⟩
  · rw [hnone]
    exact ⟨htoken.owned.symm, fun hno => flagged token (hno ▸ none_plain)⟩
  · rw [hk] at hread
    rw [hflag]
    refine ⟨fun hno => flagged _ (hno ▸ htoken.plain), fun hno => h.unowned ?_⟩
    exact hread.or_inj htoken hno
  · rw [hk] at hread
    refine ⟨fun hno => ?_, fun hno => flagged token (hno ▸ hread.1.plain)⟩
    obtain ⟨l, hl⟩ := h.issued
    rw [hno] at hk
    obtain rfl := issued_unique hg (.inr hk) hl
    cases hk.symm.trans hl

omit [DecidableEq ι] in
/-- The finish finds another owner or none, and returns without a write. -/
theorem Lapsed.own (h : Lapsed c i token) (htoken : Token token)
    (hstep : (s', k') ∈ step i c.shared (c.calls i)) :
    s' = c.shared ∧
      (k'.Finishes token ∨ k' = .finished .alreadyCleared ∨ k' = .finished .stale) := by
  rcases h.point with hk | hk | hk
  · cases hcall : c.calls i with
    | finishLoad expected =>
      obtain rfl : expected = token := by simpa [hcall, Call.Finishes] using hk
      simp only [hcall, step, if_neg htoken.owned, if_neg h.unowned, if_neg h.unflagged] at hstep
      split_ifs at hstep <;> cases List.mem_singleton.mp hstep
      · exact ⟨rfl, .inr (.inl rfl)⟩
      · exact ⟨rfl, .inr (.inr rfl)⟩
    | finishClear expected =>
      obtain rfl : expected = token := by simpa [hcall, Call.Finishes] using hk
      simp only [hcall, step, if_neg h.unowned] at hstep
      cases List.mem_singleton.mp hstep
      exact ⟨rfl, .inl rfl⟩
    | finishClearPending expected =>
      obtain rfl : expected = token := by simpa [hcall, Call.Finishes] using hk
      simp only [hcall, step, if_neg h.unflagged] at hstep
      cases List.mem_singleton.mp hstep
      exact ⟨rfl, .inl rfl⟩
    | _ =>
      rw [hcall] at hk
      exact hk.elim
  · rw [hk] at hstep
    cases hstep
  · rw [hk] at hstep
    cases hstep

omit [DecidableEq ι] in
theorem Lapsed.ne_idle (h : Lapsed c i token) : c.calls i ≠ .idle := by
  intro hidle
  rcases h.point with hk | hk | hk <;> rw [hidle] at hk
  · exact hk
  · cases hk
  · cases hk

theorem Lapsed.next {c' : Config ι (Words ι) (Call ι)} {i j : ι} {token : BitVec 64}
    (h : Lapsed c i token) (hg : (outline ι).Holds g c) (hnext : (system ι).Next j c c') :
    Lapsed c' i token := by
  obtain ⟨l, hl⟩ := h.issued
  have hwords : c'.shared.cpuHandoff ≠ token ∧
      c'.shared.cpuHandoff ≠ token ||| cpuOwnerWakePending := by
    rcases hnext.self with ⟨-, hsame, -⟩ | hstep
    · rw [hsame]
      exact ⟨h.unowned, h.unflagged⟩
    · exact h.words hg hstep
  refine ⟨⟨l, marked_stays hnext hl⟩, hwords.1, hwords.2, ?_⟩
  by_cases hij : i = j
  · subst hij
    rcases hnext.self with ⟨hidle, -⟩ | hstep
    · exact absurd hidle h.ne_idle
    · exact (h.own (h.isToken hg) hstep).2
  · rw [hnext.of_ne hij]
    exact h.point

theorem Lapsed.run {c' : Config ι (Words ι) (Call ι)} (h : Lapsed c i token)
    (hinit : (system ι).Run initial c) (hrun : (system ι).Run c c') : Lapsed c' i token := by
  induction hrun with
  | refl => exact h
  | tail hrun hnext ih =>
    obtain ⟨j, hnext⟩ := hnext
    obtain ⟨g, hg⟩ := exists_ledger (hinit.trans hrun)
    exact ih.next hg hnext

/-- **The handoff conserves references.**  In every configuration of every interleaving: no two
calls return the same reference; a publication returns its own, and a finish that of a deferred
publication; once no call is in progress and there is no owner, every publication's reference was
returned, by exactly one call; no finish misses its wake; no token is issued twice; and a finish
whose token is not the owner changes no word, then or later. -/
theorem conserves (h : (system ι).Run initial c) :
    (∀ i j task, (c.calls i).returned = some task → (c.calls j).returned = some task → i = j) ∧
    (∀ i task, c.calls i = .published (.ready task) ∨ c.calls i = .published (.occupied task) →
      task = i) ∧
    (∀ i task, c.calls i = .finished (.wake task) → c.calls task = .published .deferred) ∧
    ((∀ i, ¬ (c.calls i).InProgress) → c.shared.cpuHandoff = cpuOwnerNone →
      ∀ i result, c.calls i = .published result → ∃! j, (c.calls j).returned = some i) ∧
    (∀ i, c.calls i ≠ .finished .missingWake) ∧
    (∀ i j token, c.calls i = .marked (some token) → c.calls j = .marked (some token) → i = j) ∧
    (∀ i token, (c.calls i).Finishes token → c.shared.cpuHandoff ≠ token →
      c.shared.cpuHandoff ≠ token ||| cpuOwnerWakePending → ∀ c₁ c₂, (system ι).Run c c₁ →
        (system ι).Next i c₁ c₂ → c₂.shared = c₁.shared) := by
  obtain ⟨g, hg⟩ := exists_ledger h
  refine ⟨fun i j task => returned_unique hg, fun i task hi => ?_,
    fun i task => deferred_of_wake hg,
    fun hrest hnone i result hi => ?_, fun i hi => ?_,
    fun i j token hi => issued_unique hg (.inl hi),
    fun i token hi hunowned hunflagged c₁ c₂ hrun hnext => ?_⟩
  · have href := (hg.2 i).reference
    rcases hi with hi | hi <;> rw [hi] at href <;> exact href
  · obtain ⟨j, hj⟩ : ∃ j, (c.calls j).returned = some i := by
      have href := (hg.2 i).reference
      rw [hi] at href
      cases result with
      | deferred =>
        rcases href with hslot | hreceiver
        · cases (slot_empty hg hrest hnone).symm.trans hslot
        · obtain ⟨j, hj⟩ := Option.ne_none_iff_exists'.mp hreceiver
          exact ⟨j, ((hg.2 j).received i).mp hj⟩
      | ready task | occupied task =>
        obtain rfl : task = i := href
        exact ⟨task, by rw [hi]; rfl⟩
    exact ⟨j, hj, fun j' hj' => returned_unique hg hj' hj⟩
  · have hread := (hg.2 i).read
    rw [hi] at hread
    exact hread
  · have hlapsed := (Lapsed.mk (issued_of_finishes h hi) hunowned hunflagged (.inl hi)).run h hrun
    obtain ⟨g₁, hg₁⟩ := exists_ledger (h.trans hrun)
    rcases hnext.self with ⟨-, hsame, -⟩ | hstep
    · exact hsame
    · exact (hlapsed.own (hlapsed.isToken hg₁) hstep).1

end Runs

/-- The configuration in which CPU 0 owns the task, for call 0. -/
def owned : Config Nat (Words Nat) (Call Nat) :=
  (system Nat).exec ⟨.init, Function.update (fun _ => .idle) 0 (.markLoad 0)⟩ [0, 0, 0]

/-- The configuration in which call 1 has deferred its wake to the owner. -/
def deferred : Config Nat (Words Nat) (Call Nat) :=
  (system Nat).exec ⟨owned.shared, Function.update owned.calls 1 .publishLoad⟩ [1, 1, 1]

/-- The configuration in which call 2 has finished the handoff. -/
def handed : Config Nat (Words Nat) (Call Nat) :=
  (system Nat).exec ⟨deferred.shared, Function.update deferred.calls 2 (.finishLoad 65536)⟩
    [2, 2, 2]

theorem run_handed : (system Nat).Run initial handed := by
  have howned : (system Nat).Run initial owned :=
    .head ⟨0, .call rfl (.mark 0)⟩ ((system Nat).run_exec _ _)
  have hdeferred : (system Nat).Run owned deferred :=
    .head ⟨1, .call rfl .publish⟩ ((system Nat).run_exec _ _)
  have hissued : deferred.calls 0 = .marked (some 65536) := by decide
  have hhanded : (system Nat).Run deferred handed :=
    .head ⟨2, .call rfl (.finish hissued)⟩ ((system Nat).run_exec _ _)
  exact (howned.trans hdeferred).trans hhanded

theorem conserves_handed : handed.calls 2 = .finished (.wake 1) ∧
    ∀ j, (handed.calls j).returned = some 1 → j = 2 := by
  have hwake : handed.calls 2 = .finished (.wake 1) := by decide
  exact ⟨hwake, fun j hj => (conserves run_handed).1 j 2 1 hj (by rw [hwake]; rfl)⟩

end KernelAx.Handoff

import KernelAx.Fault.WellFormed

/-!
# Fault broker — Exactness

The broker answers as the registry does, whatever is done with it (`broker_answers`). An admission
succeeds if and only if a slot can be had for the waiter and, unless it joins a request, a slot and
a credit for a new one. Otherwise its error names what is missing, and nothing has changed
(`admission_exact`).
-/

namespace KernelAx.Fault

open Transaction FaultBroker

variable {K H C : Type}

theorem chooseSlot_cases (capacity : Nat) (free : Nat → Bool) (old : Nat → Nat) :
    match chooseSlot capacity free old with
    | .ok _ => ∃ slot < capacity, free slot ∧ old slot + 1 ≤ u64Max
    | .error .capacity => ¬ ∃ slot < capacity, free slot
    | .error .generationExhausted => (∃ slot < capacity, free slot) ∧
        ¬ ∃ slot < capacity, free slot ∧ old slot + 1 ≤ u64Max := by
  unfold chooseSlot
  dsimp only
  cases hfind : List.find? _ (List.range capacity) with
  | none =>
    by_cases hany : (List.range capacity).any free
    · simp_all
    · rw [if_neg hany]
      simpa using hany
  | some slot =>
    have husable := List.find?_some hfind
    rw [Bool.and_eq_true, decide_eq_true_eq] at husable
    exact ⟨slot, List.mem_range.mp (List.mem_of_find?_eq_some hfind), husable⟩

namespace FaultBroker

variable {b b' : FaultBroker K H C} {s : Registry K H C} {handler : H} {key : K} {credit : Bool}

def WaiterSlotFree (b : FaultBroker K H C) : Prop :=
  ∃ slot < b.waiterCapacity, (b.waiters slot).record.isNone

def WaiterSlotUsable (b : FaultBroker K H C) : Prop :=
  ∃ slot < b.waiterCapacity, (b.waiters slot).record.isNone ∧
    (b.waiters slot).generation + 1 ≤ u64Max

def RequestSlotFree (b : FaultBroker K H C) : Prop :=
  ∃ slot < b.requestCapacity, (b.requests slot).record.isNone

def RequestSlotUsable (b : FaultBroker K H C) : Prop :=
  ∃ slot < b.requestCapacity,
    (b.requests slot).record.isNone ∧ (b.requests slot).generation + 1 ≤ u64Max

/-- There is a request that an admission joins. -/
def Joins (b : FaultBroker K H C) (handler : H) (key : K) : Prop :=
  ∃ slot < b.requestCapacity, ∃ record, (b.requests slot).record = some record ∧
    record.handler = handler ∧ record.key = key ∧ record.state.isVisible = false

/-- What is missing, by the error that names it. -/
def Misses (b : FaultBroker K H C) (handler : H) (key : K) (credit : Bool) : AdmissionError → Prop
  | .requestCapacity => ¬ b.Joins handler key ∧ ¬ b.RequestSlotFree
  | .requestTokenExhausted =>
    ¬ b.Joins handler key ∧ b.RequestSlotFree ∧ ¬ b.RequestSlotUsable
  | .requestCreditCapacity => ¬ b.Joins handler key ∧ b.creditPool ∧ credit = false
  | .waiterCapacity => ¬ b.WaiterSlotFree
  | .waiterTokenExhausted => b.WaiterSlotFree ∧ ¬ b.WaiterSlotUsable
  | .inconsistentState => False

theorem of_planWaiter (credit : Bool) (handler : H) (key : K) : match b.planWaiter with
    | .ok _ => b.WaiterSlotUsable
    | .error e => b.Misses handler key credit e := by
  have hcases := chooseSlot_cases b.waiterCapacity (fun slot => (b.waiters slot).record.isNone)
    fun slot => (b.waiters slot).generation
  unfold planWaiter chooseWaiterSlot
  generalize chooseSlot _ _ _ = choice at hcases
  rcases choice with (_ | _) | _ <;> exact hcases

variable [DecidableEq K] [DecidableEq H]

theorem of_planRequest (credit : Bool) (handler : H) (key : K) :
    match b.planRequest handler key with
    | .ok (_, _, coalesced) => (coalesced ↔ b.Joins handler key) ∧ (coalesced ∨ b.RequestSlotUsable)
    | .error e => b.Misses handler key credit e := by
  have hcases := chooseSlot_cases b.requestCapacity (fun slot => (b.requests slot).record.isNone)
    fun slot => (b.requests slot).generation
  have hjoins : (b.matching handler key).isSome ↔ b.Joins handler key := by
    simp [matching, Joins, List.find?_isSome, Option.any_eq_true]
  unfold planRequest chooseRequestSlot
  generalize b.matching handler key = request at hjoins
  generalize chooseSlot _ _ _ = choice at hcases
  rcases request with _ | slot
  · have hnot : ¬ b.Joins handler key := fun h => by cases hjoins.mpr h
    rcases choice with (_ | _) | _
    · exact ⟨hnot, hcases⟩
    · exact ⟨hnot, hcases⟩
    · exact ⟨by simpa using hnot, .inr hcases⟩
  · exact ⟨hjoins, .inl rfl⟩

variable [FaultRangeKey K] {requestCapacity waiterCapacity : UInt64} {creditPool memory : Bool}
  {nextBrokerId nextBrokerId' : Nat} {log : Log K H C}

/-- **The broker answers as the registry.** Any operations can be performed on a new broker, and
their answers are those of the registry. -/
theorem broker_answers
    (hnew : tryNew requestCapacity waiterCapacity creditPool memory nextBrokerId
      = .ok (b, nextBrokerId')) :
    (∀ operations, ∃ log b', b.Run log b' ∧ log.map (·.1) = operations) ∧
    ∀ log b', b.Run log b' →
      let registry := (Registry.new nextBrokerId requestCapacity.toNat waiterCapacity.toNat
        creditPool).performAll (log.map (·.1))
      registry.1 = log ∧ Refines b' registry.2 := by
  have h := refines_tryNew hnew
  exact ⟨exists_run h, fun _ _ run => performAll_of_run run h⟩

theorem broker_answers_pair : ∃ (b : FaultBroker Page Nat Nat) (log : Log Page Nat Nat),
    tryNew 2 3 true true 1 = .ok (b, 2) ∧
    log.map (·.1) = [.admitFault 1 ⟨4096⟩ true, .claimNext 1] ∧
    ((Registry.new 1 2 3 true).performAll (log.map (·.1))).1 = log := by
  obtain ⟨b, hnew⟩ : ∃ b : FaultBroker Page Nat Nat, tryNew 2 3 true true 1 = .ok (b, 2) := ⟨_, rfl⟩
  obtain ⟨hexists, hanswers⟩ := broker_answers hnew
  obtain ⟨log, b', run, hlog⟩ := hexists [.admitFault 1 ⟨4096⟩ true, .claimNext 1]
  exact ⟨b, log, hnew, hlog, (hanswers log b' run).1⟩

/-- **Admissions are exact.** On every broker that the operations lead to, an admission joins a
request if and only if there is one to join, and succeeds unless something that it needs is missing,
in which case it says what and changes nothing. -/
theorem admission_exact
    (hnew : tryNew requestCapacity waiterCapacity creditPool memory nextBrokerId
      = .ok (b, nextBrokerId')) (run : b.Run log b') (handler : H) (key : K) (credit : Bool) :
    (∃ admission b'', admitFault handler key credit b' = .ok admission b'' ∧
      (admission.coalesced ↔ b'.Joins handler key) ∧ b'.WaiterSlotUsable ∧
      (b'.Joins handler key ∨ b'.RequestSlotUsable ∧ (!b'.creditPool ∨ credit))) ∨
    ∃ e, admitFault handler key credit b' = .error e b' ∧ b'.Misses handler key credit e := by
  obtain ⟨s, -, h⟩ := refines_run run (refines_tryNew hnew)
  have hrequest := b'.of_planRequest credit handler key
  have hwaiter := b'.of_planWaiter credit handler key
  have hfollows := admitFault_follows h handler key credit
  unfold Registry.admitFault at hfollows
  rw [h.requests.planRequest] at hrequest
  rw [h.planWaiter] at hwaiter
  rcases hchoice : s.chooseRequest handler key with e | ⟨slot, generation, coalesced⟩
  · rw [hchoice] at hrequest
    exact .inr ⟨e, bind_of_error (by rw [plan_error h (.inl hchoice)]; rfl), hrequest⟩
  rcases hchoice' : s.chooseWaiter with e | ⟨waiter, waiterGeneration⟩
  · rw [hchoice'] at hwaiter
    refine .inr ⟨e, bind_of_error ?_, hwaiter⟩
    rw [plan_error h (.inr ⟨⟨_, hchoice⟩, hchoice'⟩)]
    rfl
  rw [hchoice] at hrequest
  rw [hchoice'] at hwaiter
  rw [hchoice, hchoice'] at hfollows
  obtain ⟨hjoins, hslot⟩ := hrequest
  cases coalesced with
  | true =>
    obtain ⟨b'', -, hm⟩ := hfollows
    exact .inl ⟨_, b'', hm, hjoins, hwaiter, .inl (hjoins.mp rfl)⟩
  | false =>
    have hpool := h.requests.creditPool
    by_cases hcredit : !s.creditPool ∨ credit
    · simp only [Bool.false_eq_true, if_false, if_pos hcredit] at hfollows
      obtain ⟨b'', -, hm⟩ := hfollows
      have hneeds := And.intro (hslot.resolve_left Bool.false_ne_true) (hpool.symm ▸ hcredit)
      exact .inl ⟨_, b'', hm, hjoins, hwaiter, .inr hneeds⟩
    · have hread : (Op.read (·.creditPool) : Op AdmissionError _ _) b' = .ok s.creditPool b' :=
        congrArg (Outcome.ok · b') hpool
      refine .inr ⟨.requestCreditCapacity, ?_, fun hj => (by cases hjoins.mpr hj), ?_⟩
      · refine (bind_of_ok (by rw [plan_open h hchoice hchoice']; rfl)).trans ?_
        refine (bind_of_ok hread).trans (bind_of_error (require_of_not fun hor => ?_))
        exact hor.elim Bool.false_ne_true hcredit
      · rw [hpool]
        simpa using hcredit

/-- After a request is opened, joined, and another one refused for want of a credit, an admission
joins the first request again and the other one is refused again. -/
theorem admission_exact_refused : ∃ (b b' : FaultBroker Page Nat Nat) (log : Log Page Nat Nat),
    tryNew 2 4 true true 1 = .ok (b, 2) ∧ b.Run log b' ∧
    log = [(.admitFault 1 ⟨4096⟩ true, .admitted (.ok ⟨⟨1, 0, 1⟩, ⟨1, 0, 1⟩, false⟩)),
      (.admitFault 1 ⟨4096⟩ false, .admitted (.ok ⟨⟨1, 0, 1⟩, ⟨1, 1, 1⟩, true⟩)),
      (.admitFault 1 ⟨8192⟩ false, .admitted (.error .requestCreditCapacity))] ∧
    b'.Joins 1 ⟨4096⟩ ∧ b'.Misses 1 ⟨8192⟩ false .requestCreditCapacity := by
  obtain ⟨b, b₁, b₂, b₃, hnew, h₁, h₂, h₃, b₄, hjoined, hrefused⟩ :
      ∃ b b₁ b₂ b₃ : FaultBroker Page Nat Nat, tryNew 2 4 true true 1 = .ok (b, 2) ∧
      b.perform (.admitFault 1 ⟨4096⟩ true)
        = some (.admitted (.ok ⟨⟨1, 0, 1⟩, ⟨1, 0, 1⟩, false⟩), b₁) ∧
      b₁.perform (.admitFault 1 ⟨4096⟩ false)
        = some (.admitted (.ok ⟨⟨1, 0, 1⟩, ⟨1, 1, 1⟩, true⟩), b₂) ∧
      b₂.perform (.admitFault 1 ⟨8192⟩ false)
        = some (.admitted (.error .requestCreditCapacity), b₃) ∧
      ∃ b₄, admitFault 1 ⟨4096⟩ false b₃ = .ok ⟨⟨1, 0, 1⟩, ⟨1, 2, 1⟩, true⟩ b₄ ∧
        admitFault 1 ⟨8192⟩ false b₃ = .error .requestCreditCapacity b₃ :=
    ⟨_, _, _, _, rfl, rfl, rfl, rfl, _, rfl, rfl⟩
  have run := ((Run.nil.snoc h₁).snoc h₂).snoc h₃
  refine ⟨b, b₃, _, hnew, run, rfl, ?_, ?_⟩
  · rcases admission_exact hnew run 1 ⟨4096⟩ false with ⟨admission, _, hm, hjoins, -⟩ | ⟨e, hm, -⟩
    · rw [hjoined] at hm
      cases hm
      exact hjoins.mp rfl
    · rw [hjoined] at hm
      cases hm
  · rcases admission_exact hnew run 1 ⟨8192⟩ false with ⟨admission, _, hm, -⟩ | ⟨e, hm, hmisses⟩
    · rw [hrefused] at hm
      cases hm
    · rw [hrefused] at hm
      cases hm
      exact hmisses

end FaultBroker

end KernelAx.Fault

import Mathlib.Data.List.Induction
import KernelAx.Fault.Admission
import KernelAx.Fault.Completion
import KernelAx.Fault.Removal

/-!
# Fault broker — Simulation

Every operation of the broker follows the registry (`refines_perform`), and so does every sequence
of operations (`refines_run`): it returns, with the answers of the registry.
-/

namespace KernelAx.Fault

open Transaction

variable {K H C ε α : Type} {b : FaultBroker K H C} {s : Registry K H C}

theorem Follows.answer {m : Op ε (FaultBroker K H C) α} {result : Except ε α × Registry K H C}
    (h : Follows m b result) (f : Except ε α → Answer K H C) :
    ∃ b', FaultBroker.answer m f b = some (f result.1, b') ∧ Refines b' result.2 := by
  obtain ⟨b', h', hm⟩ := h
  refine ⟨b', ?_, h'⟩
  unfold FaultBroker.answer
  rw [hm]
  cases result.1 <;> rfl

theorem answer'_of_returns {m : Op Empty (FaultBroker K H C) α} {result : α × Registry K H C}
    (h : Returns m b fun a b' => a = result.1 ∧ Refines b' result.2) (f : α → Answer K H C) :
    ∃ b', FaultBroker.answer' m f b = some (f result.1, b') ∧ Refines b' result.2 := by
  obtain ⟨_, b', hm, rfl, h'⟩ := h.exists
  refine ⟨b', ?_, h'⟩
  unfold FaultBroker.answer'
  rw [hm]

variable [DecidableEq K] [DecidableEq H] [FaultRangeKey K]

theorem refines_perform (h : Refines b s) (o : Operation K H C) :
    ∃ b', b.perform o = some ((s.perform o).1, b') ∧ Refines b' (s.perform o).2 := by
  cases o with
  | admitFault handler key credit =>
    exact (admitFault_follows h handler key credit).answer .admitted
  | claimNext handler => exact answer'_of_returns (claimNext_returns h) .claimed
  | complete token completion visibility =>
    exact (complete_follows h token completion visibility).answer .completed
  | completeWhere predicate completion visibility =>
    exact answer'_of_returns (completeWhere_returns h predicate completion visibility) .summary
  | completeRange range completion visibility =>
    exact answer'_of_returns (completeWhere_returns h _ completion visibility) .summary
  | release token => exact (release_follows h token).answer .released
  | releaseWhere predicate => exact answer'_of_returns (releaseWhere_returns h predicate) .summary
  | releaseRange range => exact answer'_of_returns (releaseWhere_returns h _) .summary
  | detachHandler handler completion =>
    exact answer'_of_returns (detachHandler_returns h handler completion) .summary
  | cancelWaiter token => exact (cancelWaiter_follows h token).answer .cancelled
  | takeWaiterCompletion token => exact (takeWaiterCompletion_follows h token).answer .taken

/-! ### Runs -/

/-- The operations of a run, with their answers. -/
abbrev Log (K H C : Type) := List (Operation K H C × Answer K H C)

/-- The broker performs operations one after the other, and each of them returns. -/
inductive FaultBroker.Run (b : FaultBroker K H C) : Log K H C → FaultBroker K H C → Prop
  | nil : Run b [] b
  | snoc {log b' b'' o a} (run : Run b log b') (perform : b'.perform o = some (a, b'')) :
      Run b (log ++ [(o, a)]) b''

/-- A run of the registry with what its operations returned. -/
inductive Registry.Run (s : Registry K H C) : Log K H C → Registry K H C → Prop
  | nil : Run s [] s
  | snoc {log s' s'' o a} (run : Run s log s') (step : s'.Step o a s'') :
      Run s (log ++ [(o, a)]) s''

theorem refines_run {log : Log K H C} {b' : FaultBroker K H C} (run : b.Run log b')
    (h : Refines b s) : ∃ s', s.Run log s' ∧ Refines b' s' := by
  induction run with
  | nil => exact ⟨s, .nil, h⟩
  | snoc run perform ih =>
    obtain ⟨s', run', h'⟩ := ih
    obtain ⟨b'', hperform, h''⟩ := refines_perform h' _
    cases perform.symm.trans hperform
    exact ⟨_, run'.snoc (Registry.perform_step h'.valid _), h''⟩

/-- The registry performs operations one after the other. -/
def Registry.performAll (s : Registry K H C) (operations : List (Operation K H C)) :
    Log K H C × Registry K H C :=
  operations.foldl (fun (log, s) o => (log ++ [(o, (s.perform o).1)], (s.perform o).2)) ([], s)

theorem performAll_of_run {log : Log K H C} {b' : FaultBroker K H C} (run : b.Run log b')
    (h : Refines b s) : (s.performAll (log.map (·.1))).1 = log ∧
      Refines b' (s.performAll (log.map (·.1))).2 := by
  induction run with
  | nil => exact ⟨rfl, h⟩
  | snoc run perform ih =>
    obtain ⟨hlog, h'⟩ := ih
    obtain ⟨b'', hperform, h''⟩ := refines_perform h' _
    cases perform.symm.trans hperform
    rw [Registry.performAll, List.map_append, List.foldl_append]
    exact ⟨congrArg (· ++ _) hlog, h''⟩

theorem exists_run (h : Refines b s) (operations : List (Operation K H C)) :
    ∃ log b', b.Run log b' ∧ log.map (·.1) = operations := by
  induction operations using List.reverseRecOn with
  | nil => exact ⟨[], b, .nil, rfl⟩
  | append_singleton operations o ih =>
    obtain ⟨log, b', run, hlog⟩ := ih
    obtain ⟨s', -, h'⟩ := refines_run run h
    obtain ⟨b'', hperform, -⟩ := refines_perform h' o
    exact ⟨_, b'', run.snoc hperform, by simp [hlog]⟩

omit [DecidableEq K] [DecidableEq H] [FaultRangeKey K] in
theorem refines_tryNew {requestCapacity waiterCapacity : UInt64} {creditPool memory : Bool}
    {nextBrokerId nextBrokerId' : Nat}
    (hnew : FaultBroker.tryNew requestCapacity waiterCapacity creditPool memory nextBrokerId
      = .ok (b, nextBrokerId')) :
    Refines b (.new nextBrokerId requestCapacity.toNat waiterCapacity.toNat creditPool) := by
  unfold FaultBroker.tryNew at hnew
  split at hnew
  · cases hnew
  · split at hnew
    · cases hnew
    · split at hnew
      · cases hnew
        refine ⟨⟨rfl, rfl, rfl, fun _ => rfl, fun _ => rfl, Linked.nil⟩,
          ⟨rfl, fun _ => rfl, fun _ => rfl, fun h => nomatch h⟩, Registry.valid_new, ?_⟩
        exact Nat.le_sub_one_of_lt waiterCapacity.toNat_lt
      · cases hnew

end KernelAx.Fault

import Mathlib.Logic.Function.Basic
import Mathlib.Logic.Relation

/-!
# Interleaving — calls over shared memory

Any number of calls run over a shared memory. A configuration is the memory and the point that each
call has reached; a step is a new call or one atomic access of a call in progress, and no order
between calls is assumed.

An `Outline` is an assertion for the memory and one for each point of a call, both over an
auxiliary state that the program does not have (who will empty a slot, who was given a reference).
`Stable.run` is the rule of non-interference: an outline holds in every configuration of a run
when each step can move the auxiliary state such that the assertion of the memory and of the moving
call hold again, and the assertions of all other calls survive.
-/

namespace KernelAx.Interleaving

open Function (forall_update_iff)

/-- The shared memory and the point that each call has reached. -/
structure Config (ι σ κ : Type) where
  shared : σ
  calls : ι → κ

def Config.calling {ι σ κ : Type} [DecidableEq ι] (c : Config ι σ κ) (i : ι) (k : κ) :
    Config ι σ κ :=
  ⟨c.shared, Function.update c.calls i k⟩

/-- The calls of a list are made, in its order. -/
def Config.callingAll {ι σ κ : Type} [DecidableEq ι] (c : Config ι σ κ) (calls : List (ι × κ)) :
    Config ι σ κ :=
  calls.foldl (fun c p => c.calling p.1 p.2) c

/-- A family of calls over a shared memory. -/
structure System (ι σ κ : Type) where
  idle : κ
  /-- The calls that can be made in a configuration. -/
  Starts : Config ι σ κ → κ → Prop
  /-- What the next atomic access of a call can do. -/
  step : ι → σ → κ → List (σ × κ)

variable {ι σ κ γ : Type} [DecidableEq ι] {S : System ι σ κ}

namespace System

/-- One step of the call `i`. -/
inductive Next (S : System ι σ κ) (i : ι) : Config ι σ κ → Config ι σ κ → Prop
  | call {c : Config ι σ κ} {k : κ} (idle : c.calls i = S.idle) (starts : S.Starts c k) :
      Next S i c ⟨c.shared, Function.update c.calls i k⟩
  | act {c : Config ι σ κ} {s : σ} {k : κ} (step : (s, k) ∈ S.step i c.shared (c.calls i)) :
      Next S i c ⟨s, Function.update c.calls i k⟩

def Run (S : System ι σ κ) : Config ι σ κ → Config ι σ κ → Prop :=
  Relation.ReflTransGen fun c c' => ∃ i, S.Next i c c'

variable {c c' c₀ : Config ι σ κ} {i : ι} {k : κ} {P : ι → Config ι σ κ → Prop}

theorem Run.invariant {P : Config ι σ κ → Prop} (h : S.Run c c')
    (hnext : ∀ {i c c'}, S.Next i c c' → P c → P c') (hc : P c) : P c' := by
  induction h with
  | refl => exact hc
  | tail _ hstep ih =>
    obtain ⟨i, hstep⟩ := hstep
    exact hnext hstep ih

/-- An invariant whose step uses what is known of the configurations of a run. -/
theorem Run.reached {P : Config ι σ κ → Prop} (h : S.Run c₀ c)
    (hnext : ∀ {i c c'}, S.Run c₀ c → S.Next i c c' → P c → P c') (hc : P c₀) : P c := by
  induction h with
  | refl => exact hc
  | tail hrun hstep ih =>
    obtain ⟨i, hstep⟩ := hstep
    exact hnext hrun hstep ih

theorem Run.calling (h : S.Run c c') (idle : c'.calls i = S.idle) (starts : S.Starts c' k) :
    S.Run c (c'.calling i k) :=
  h.tail ⟨i, .call idle starts⟩

theorem Run.callingAll {calls : List (ι × κ)} (h : S.Run c₀ c)
    (nodup : (calls.map Prod.fst).Nodup) (idle : ∀ p ∈ calls, c.calls p.1 = S.idle)
    (starts : ∀ p ∈ calls, ∀ c, S.Starts c p.2) : S.Run c₀ (c.callingAll calls) := by
  induction calls generalizing c with
  | nil => exact h
  | cons p calls ih =>
    obtain ⟨hp, nodup⟩ := List.nodup_cons.mp nodup
    refine ih (h.calling (idle p List.mem_cons_self) (starts p List.mem_cons_self c)) nodup ?_
      fun q hq => starts q (List.mem_cons_of_mem p hq)
    intro q hq
    have hne : q.1 ≠ p.1 := fun heq => hp (heq ▸ List.mem_map_of_mem hq)
    exact (Function.update_of_ne hne _ _).trans (idle q (List.mem_cons_of_mem p hq))

/-- A run all configurations of which, but for the last, satisfy `P`. -/
def RunWhile (S : System ι σ κ) (P : Config ι σ κ → Prop) : Config ι σ κ → Config ι σ κ → Prop :=
  Relation.ReflTransGen fun c c' => P c ∧ ∃ i, S.Next i c c'

theorem RunWhile.invariant {P Q : Config ι σ κ → Prop} (h : S.RunWhile P c c')
    (hnext : ∀ {i c c'}, P c → S.Next i c c' → Q c → Q c') (hc : Q c) : Q c' := by
  induction h with
  | refl => exact hc
  | tail _ hstep ih =>
    obtain ⟨hP, i, hstep⟩ := hstep
    exact hnext hP hstep ih

theorem Next.self (h : S.Next i c c') :
    (c.calls i = S.idle ∧ c'.shared = c.shared ∧ S.Starts c (c'.calls i)) ∨
      (c'.shared, c'.calls i) ∈ S.step i c.shared (c.calls i) := by
  cases h with
  | call idle starts => exact .inl ⟨idle, rfl, by simpa using starts⟩
  | act step => exact .inr (by simpa using step)

theorem Next.of_ne {j : ι} (h : S.Next i c c') (hji : j ≠ i) : c'.calls j = c.calls j := by
  cases h <;> exact Function.update_of_ne hji _ _

/-- What the steps of one call keep while it is at work. -/
theorem RunWhile.point {P : Config ι σ κ → Prop} {Q : κ → Prop} (h : S.RunWhile P c c')
    (busy : ∀ c, P c → c.calls i ≠ S.idle)
    (hstep : ∀ {c s k}, P c → Q (c.calls i) → (s, k) ∈ S.step i c.shared (c.calls i) → Q k)
    (hc : Q (c.calls i)) : Q (c'.calls i) := by
  refine h.invariant (Q := fun c => Q (c.calls i)) (fun {j c c'} hP hnext hQ => ?_) hc
  by_cases hij : i = j
  · subst hij
    rcases hnext.self with ⟨idle, -⟩ | step
    · exact absurd idle (busy c hP)
    · exact hstep hP hQ step
  · rwa [hnext.of_ne hij]

/-- A run each step of which is taken in a configuration that satisfies `P` for the call that
steps. -/
def RunWhen (S : System ι σ κ) (P : ι → Config ι σ κ → Prop) : Config ι σ κ → Config ι σ κ → Prop :=
  Relation.ReflTransGen fun c c' => ∃ i, P i c ∧ S.Next i c c'

theorem RunWhen.run (h : S.RunWhen P c c') : S.Run c c' := by
  induction h with
  | refl => exact .refl
  | tail _ hstep ih =>
    obtain ⟨i, -, hstep⟩ := hstep
    exact ih.tail ⟨i, hstep⟩

theorem Run.when (h : S.Run c c') : S.RunWhen (fun _ _ => True) c c' := by
  induction h with
  | refl => exact .refl
  | tail _ hstep ih =>
    obtain ⟨i, hstep⟩ := hstep
    exact ih.tail ⟨i, trivial, hstep⟩

theorem RunWhen.reached {Q : Config ι σ κ → Prop} (h : S.RunWhen P c₀ c)
    (hnext : ∀ {i c c'}, S.RunWhen P c₀ c → P i c → S.Next i c c' → Q c → Q c') (hc : Q c₀) :
    Q c := by
  induction h with
  | refl => exact hc
  | tail hrun hstep ih =>
    obtain ⟨i, hP, hstep⟩ := hstep
    exact hnext hrun hP hstep ih

theorem RunWhen.calling (h : S.RunWhen P c c') (when : P i c') (idle : c'.calls i = S.idle)
    (starts : S.Starts c' k) : S.RunWhen P c (c'.calling i k) :=
  h.tail ⟨i, when, .call idle starts⟩

/-- The first of the things that the calls of a list can do, in their order. -/
def exec (S : System ι σ κ) (c : Config ι σ κ) : List ι → Config ι σ κ
  | [] => c
  | i :: rest =>
    match S.step i c.shared (c.calls i) with
    | [] => S.exec c rest
    | (s, k) :: _ => S.exec ⟨s, Function.update c.calls i k⟩ rest

theorem run_exec (S : System ι σ κ) :
    ∀ (order : List ι) (c : Config ι σ κ), S.Run c (S.exec c order)
  | [], _ => .refl
  | i :: rest, c => by
    unfold exec
    split
    · exact S.run_exec rest c
    · rename_i s k _ hstep
      exact .head ⟨i, .act (by rw [hstep]; exact List.mem_cons_self)⟩ (S.run_exec rest _)

/-- A call that is not scheduled stays where it is. -/
theorem exec_calls (S : System ι σ κ) {j : ι} :
    ∀ {order : List ι} {c : Config ι σ κ}, j ∉ order → (S.exec c order).calls j = c.calls j
  | [], _, _ => rfl
  | i :: rest, c, h => by
    rw [List.mem_cons, not_or] at h
    unfold exec
    split
    · exact S.exec_calls h.2
    · rw [S.exec_calls h.2]
      exact Function.update_of_ne h.1 ..

theorem Run.exec (h : S.Run c c') (order : List ι) : S.Run c (S.exec c' order) :=
  Relation.ReflTransGen.trans h (S.run_exec order c')

theorem runWhile_exec (S : System ι σ κ) {P : Config ι σ κ → Prop} :
    ∀ (order : List ι) (c : Config ι σ κ),
      (∀ k < order.length, P (S.exec c (order.take k))) → S.RunWhile P c (S.exec c order)
  | [], _, _ => .refl
  | i :: rest, c, h => by
    have hrest := fun k (hk : k < rest.length) => h (k + 1) (Nat.succ_lt_succ hk)
    simp only [List.take_succ_cons] at hrest
    unfold exec at hrest ⊢
    split at hrest
    · exact S.runWhile_exec rest c hrest
    · rename_i s k _ hstep
      refine .head ⟨h 0 (Nat.succ_pos _), i, .act ?_⟩ (S.runWhile_exec rest _ hrest)
      rw [hstep]
      exact List.mem_cons_self

theorem RunWhen.exec :
    ∀ {order : List ι} {c : Config ι σ κ}, S.RunWhen P c₀ c →
      (∀ k (hk : k < order.length), P order[k] (S.exec c (order.take k))) →
      S.RunWhen P c₀ (S.exec c order)
  | [], _, hrun, _ => hrun
  | i :: rest, c, hrun, h => by
    have hhead := h 0 (Nat.succ_pos _)
    have hrest := fun k (hk : k < rest.length) => h (k + 1) (Nat.succ_lt_succ hk)
    simp only [List.take_succ_cons, List.getElem_cons_succ] at hrest
    unfold System.exec at hrest ⊢
    split at hrest
    · exact RunWhen.exec hrun hrest
    · rename_i s k _ hstep
      refine RunWhen.exec (hrun.tail ⟨i, hhead, .act ?_⟩) hrest
      rw [hstep]
      exact List.mem_cons_self

theorem Next.returned {j : ι} (h : S.Next i c c') (hk : c.calls j = k) (hidle : k ≠ S.idle)
    (hdone : ∀ s, S.step j s k = []) : c'.calls j = k := by
  by_cases hji : j = i
  · subst hji
    rcases h.self with ⟨idle, -⟩ | step
    · exact absurd (hk.symm.trans idle) hidle
    · rw [hk, hdone] at step
      cases step
  · exact (h.of_ne hji).trans hk

/-- **Assertions that a step of one call does not take from another**: `M` for the memory and `P`
for the memory and the point of a call. -/
theorem Run.stable {M : σ → Prop} {P : σ → κ → Prop} (h : S.Run c c')
    (call : ∀ {c : Config ι σ κ} {k : κ}, M c.shared → (∀ j, P c.shared (c.calls j)) →
      S.Starts c k → P c.shared k)
    (act : ∀ {i : ι} {s s' : σ} {k k' : κ}, M s → P s k → (s', k') ∈ S.step i s k →
      M s' ∧ P s' k' ∧ ∀ k₀, P s k₀ → P s' k₀)
    (start : M c.shared ∧ ∀ j, P c.shared (c.calls j)) :
    M c'.shared ∧ ∀ j, P c'.shared (c'.calls j) := by
  refine h.invariant (P := fun c => M c.shared ∧ ∀ j, P c.shared (c.calls j)) ?_ start
  rintro i c c' hnext ⟨hM, hP⟩
  cases hnext with
  | call idle starts =>
    exact ⟨hM, (forall_update_iff c.calls fun _ k => P c.shared k).mpr
      ⟨call hM hP starts, fun j _ => hP j⟩⟩
  | @act s' _ step =>
    obtain ⟨hM', hself, hothers⟩ := act hM (hP i) step
    exact ⟨hM', (forall_update_iff c.calls fun _ k => P s' k).mpr
      ⟨hself, fun j _ => hothers _ (hP j)⟩⟩

/-- The same for assertions that name the call, with what is known of the configurations of the
run. -/
theorem Run.points {M : σ → Prop} {P : σ → ι → κ → Prop} (h : S.Run c₀ c)
    (call : ∀ {c : Config ι σ κ} {i : ι} {k : κ}, S.Run c₀ c → M c.shared → c.calls i = S.idle →
      P c.shared i (c.calls i) → S.Starts c k → P c.shared i k)
    (act : ∀ {c : Config ι σ κ} {i : ι} {s' : σ} {k' : κ}, S.Run c₀ c → M c.shared →
      (∀ j, P c.shared j (c.calls j)) → (s', k') ∈ S.step i c.shared (c.calls i) →
        M s' ∧ P s' i k' ∧ ∀ j, j ≠ i → P s' j (c.calls j))
    (start : M c₀.shared ∧ ∀ j, P c₀.shared j (c₀.calls j)) :
    M c.shared ∧ ∀ j, P c.shared j (c.calls j) := by
  refine h.reached (P := fun c => M c.shared ∧ ∀ j, P c.shared j (c.calls j)) ?_ start
  rintro i c c' hrun hnext ⟨hM, hP⟩
  cases hnext with
  | call idle starts =>
    exact ⟨hM, (forall_update_iff c.calls (P c.shared)).mpr
      ⟨call hrun hM idle (hP i) starts, fun j _ => hP j⟩⟩
  | @act s' _ step =>
    obtain ⟨hM', hself, hothers⟩ := act hrun hM hP step
    exact ⟨hM', (forall_update_iff c.calls (P s')).mpr ⟨hself, hothers⟩⟩

end System

/-! ### Non-interference -/

/-- Assertions for the memory and for the point of each call, over an auxiliary state. -/
structure Outline (ι σ κ γ : Type) where
  Memory : γ → σ → Prop
  Point : γ → ι → κ → Prop

namespace Outline

variable {A : Outline ι σ κ γ}

def Holds (A : Outline ι σ κ γ) (g : γ) (c : Config ι σ κ) : Prop :=
  A.Memory g c.shared ∧ ∀ i, A.Point g i (c.calls i)

/-- The auxiliary state can follow a step of `i` to `s` and `k`. -/
def Follows (A : Outline ι σ κ γ) (g : γ) (i : ι) (s : σ) (k : κ) : Prop :=
  ∃ g', A.Memory g' s ∧ A.Point g' i k ∧ ∀ j k, j ≠ i → A.Point g j k → A.Point g' j k

theorem Follows.holds {g : γ} {i : ι} {s : σ} {k : κ} {calls : ι → κ}
    (h : A.Follows g i s k) (hcalls : ∀ i, A.Point g i (calls i)) :
    ∃ g', A.Holds g' ⟨s, Function.update calls i k⟩ := by
  obtain ⟨g', hmemory, hpoint, hothers⟩ := h
  exact ⟨g', hmemory, (forall_update_iff calls (A.Point g')).mpr
    ⟨hpoint, fun j hji => hothers j _ hji (hcalls j)⟩⟩

/-- What the rule of non-interference asks for. -/
structure Stable (A : Outline ι σ κ γ) (S : System ι σ κ) : Prop where
  call : ∀ {g : γ} {i : ι} {c : Config ι σ κ} {k : κ}, A.Holds g c → c.calls i = S.idle →
    S.Starts c k → A.Follows g i c.shared k
  act : ∀ {g : γ} {i : ι} {s s' : σ} {k k' : κ}, A.Memory g s → A.Point g i k →
    (s', k') ∈ S.step i s k → A.Follows g i s' k'

/-- **The rule of non-interference.** -/
theorem Stable.run (h : A.Stable S) {c c' : Config ι σ κ} (hrun : S.Run c c')
    (hc : ∃ g, A.Holds g c) : ∃ g, A.Holds g c' := by
  refine hrun.invariant (P := fun c => ∃ g, A.Holds g c) ?_ hc
  rintro i c c' hnext ⟨g, hg⟩
  cases hnext with
  | call idle starts => exact (h.call hg idle starts).holds hg.2
  | act step => exact (h.act hg.1 (hg.2 i) step).holds hg.2

end Outline

end KernelAx.Interleaving

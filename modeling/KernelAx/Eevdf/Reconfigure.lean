import KernelAx.Eevdf.LagSum
import KernelAx.Eevdf.RequestExact

/-!
# EEVDF — Reconfiguration and back

A change of class and weight comes in three variants: of an entity in fair accounting, of one that
left it for a real-time class, and of a sleeper. Each takes over the lag and the remaining fraction
of the request and derives everything else anew, so a configuration leaves no trace in the next one
(`Reconfigured.trans`): there and back is one reconfiguration to where the entity already was.
That gives back the quantum and the deadline when they are the derived ones, and only then.
-/

namespace KernelAx.Eevdf

open Transaction Op ModelError

/-- The parameters that a reconfiguration sets. -/
structure FairConfig where
  cls : RequestClass
  weight : Nat
  totalWeight : Nat
  deriving DecidableEq, Repr

/-- How an entity stands to fair accounting, with the virtual time of the change. -/
inductive Standing
  | awake (v : Int)
  | frozen (v : Int)
  | sleeping
  deriving DecidableEq, Repr

namespace Entity

def reconfigureTo (e : Entity) (standing : Standing) (config : FairConfig) :
    Except ModelError Entity :=
  match standing with
  | .awake v => e.reconfigure config.cls config.weight config.totalWeight v
  | .frozen v => e.reconfigureFrozen config.cls config.weight config.totalWeight v
  | .sleeping => e.reconfigureSleeping config.cls config.weight config.totalWeight

/-- The three are written through `&mut self`: the next entity is assigned as a whole. -/
def reconfigureInPlace (standing : Standing) (config : FairConfig) : Op ModelError Entity Unit := do
  let e ← Op.read id
  let next ← lift (e.reconfigureTo standing config)
  Op.modify fun _ => next

theorem reconfigureInPlace_eq (standing : Standing) (config : FairConfig) :
    reconfigureInPlace standing config = staged (reconfigureTo · standing config) := by
  funext e
  unfold reconfigureInPlace staged
  cases h : e.reconfigureTo standing config <;>
    simp [Op.read, Op.lift, Op.fail, Op.modify, bind, Op.bind, pure, h]

/-- The lag that a reconfiguration takes over. -/
def lagFor (e : Entity) : Standing → Except ModelError Int
  | .awake v => e.lagAt v
  | .frozen _ | .sleeping => .ok e.lag

/-- The point at which a reconfiguration places the request. -/
def anchorFor (e : Entity) : Standing → Int
  | .awake v | .frozen v => v
  | .sleeping => e.sleeperV.getD 0

variable {e e' : Entity} {standing : Standing} {config : FairConfig}

structure Reconfigured (e : Entity) (standing : Standing) (config : FairConfig) (e' : Entity) :
    Prop where
  weight : config.weight ≠ 0
  asleep : e.sleeperV.isSome = (standing = .sleeping)
  lag : e.lagFor standing = .ok e'.lag
  quantum : requestQuantum config.cls config.weight config.totalWeight = .ok e'.request.q
  request : e.reconfiguredRequest config.cls e'.request.q config.weight (e.anchorFor standing)
    e'.lag = .ok e'.request
  rest : e' = ⟨config.cls, config.weight, e'.lag, e.anchorFor standing, e'.request, e.sleeperV⟩

theorem reconfiguredRequest_eq_ok {cls : RequestClass} {q weight : Nat} {anchor lag : Int}
    {r : Request} (h : e.reconfiguredRequest cls q weight anchor lag = .ok r) :
    e.request.exactValid = .ok () ∧ r.exactValid = .ok () ∧ r.q = q ∧
      r.remainingFractionNum = e.request.remainingFractionNum ∧
      r.remainingFractionDen = e.request.remainingFractionDen ∧
      ∃ start length, requestStart anchor lag weight = .ok start ∧
        r.remainingVirtualLength weight = .ok length ∧ r.deadline = start + length := by
  obtain ⟨⟨⟩, hvalid, h⟩ := bind_eq_ok.mp h
  obtain ⟨r₁, h₁, h⟩ := bind_eq_ok.mp h
  obtain ⟨full, -, h⟩ := bind_eq_ok.mp h
  obtain ⟨length, hlength, h⟩ := bind_eq_ok.mp h
  obtain ⟨start, hstart, h⟩ := bind_eq_ok.mp h
  obtain ⟨deadline, hdeadline, h⟩ := bind_eq_ok.mp h
  cases h
  obtain ⟨rfl, -⟩ := inI128_ok hdeadline
  unfold Request.setQuantum at h₁
  split at h₁
  · cases h₁
  obtain ⟨⟨work, ticks⟩, hprojection, h₁⟩ := bind_eq_ok.mp h₁
  cases h₁
  refine ⟨hvalid, ?_, rfl, rfl, rfl, start, length, hstart, hlength, rfl⟩
  simp only [Request.exactValid, hprojection, ok_bind]
  simp

theorem reconfigured_of_ok (h : e.reconfigureTo standing config = .ok e') :
    e.Reconfigured standing config e' := by
  cases standing with
  | awake v =>
    rw [reconfigureTo, reconfigure] at h
    split at h
    · cases h
    rename_i hweight
    split at h
    · cases h
    rename_i hawake
    obtain ⟨lag, hlag, h⟩ := bind_eq_ok.mp h
    obtain ⟨q, hq, h⟩ := bind_eq_ok.mp h
    obtain ⟨r, hr, h⟩ := bind_eq_ok.mp h
    cases h
    obtain rfl := (reconfiguredRequest_eq_ok hr).2.2.1
    exact ⟨hweight, by simpa using hawake, hlag, hq, hr, rfl⟩
  | frozen v =>
    rw [reconfigureTo, reconfigureFrozen] at h
    split at h
    · cases h
    rename_i hweight
    split at h
    · cases h
    rename_i hawake
    obtain ⟨q, hq, h⟩ := bind_eq_ok.mp h
    obtain ⟨r, hr, h⟩ := bind_eq_ok.mp h
    cases h
    obtain rfl := (reconfiguredRequest_eq_ok hr).2.2.1
    have hnone : e.sleeperV = none := by simpa using hawake
    exact ⟨hweight, by simpa using hawake, rfl, hq, hr, by rw [hnone]; rfl⟩
  | sleeping =>
    rw [reconfigureTo, reconfigureSleeping] at h
    split at h
    · cases h
    rename_i sleeper hasleep
    split at h
    · cases h
    rename_i hweight
    obtain ⟨q, hq, h⟩ := bind_eq_ok.mp h
    obtain ⟨r, hr, h⟩ := bind_eq_ok.mp h
    cases h
    obtain rfl := (reconfiguredRequest_eq_ok hr).2.2.1
    have hanchor : e.anchorFor .sleeping = sleeper := by simp [anchorFor, hasleep]
    exact ⟨hweight, by simp [hasleep], rfl, hq, hanchor ▸ hr, by rw [hanchor, hasleep]⟩

theorem reconfiguredRequest_congr {cls : RequestClass} {q weight : Nat} {anchor lag : Int}
    (h : e.request.exactValid = .ok ()) (h' : e'.request.exactValid = .ok ())
    (hnum : e'.request.remainingFractionNum = e.request.remainingFractionNum)
    (hden : e'.request.remainingFractionDen = e.request.remainingFractionDen) :
    e'.reconfiguredRequest cls q weight anchor lag
      = e.reconfiguredRequest cls q weight anchor lag := by
  simp only [reconfiguredRequest, h, h', ok_bind, Request.setQuantum, hnum, hden]
  split
  · rfl
  cases Request.projection q e.request.remainingFractionNum e.request.remainingFractionDen with
  | error => rfl
  | ok projected =>
    simp only [ok_bind, Request.remainingVirtualLength, Request.exactValid]

theorem lagAt_lagStamp (hawake : e.sleeperV = none) (hweight : e.weight ≠ 0) (hlag : InI128 e.lag) :
    e.lagAt e.lagStamp = .ok e.lag := by
  simp only [lagAt, if_neg hweight, hawake, Option.isSome_none, Bool.false_eq_true, if_false,
    checkedLagAt, sub_self, inI128_of (v := 0) (by decide), ok_bind, checkedMulI128U128_eq,
    zero_mul, add_zero]
  exact inI128_of hlag

theorem inI128_of_lagAt {v l : Int} (hawake : e.sleeperV = none) (h : e.lagAt v = .ok l) :
    InI128 l := by
  unfold lagAt at h
  split at h
  · cases h
  rw [hawake] at h
  simp only [Option.isSome_none, Bool.false_eq_true, if_false, checkedLagAt] at h
  split at h
  · cases h
  obtain ⟨delta, -, h⟩ := bind_eq_ok.mp h
  obtain ⟨change, -, h⟩ := bind_eq_ok.mp h
  obtain ⟨rfl, hin⟩ := inI128_ok h
  exact hin

/-- **A configuration leaves no trace in the next one.** -/
theorem Reconfigured.trans (h : e.Reconfigured standing config e') (target : FairConfig) :
    e'.reconfigureTo standing target = e.reconfigureTo standing target := by
  obtain ⟨hvalid, hvalid', -, hnum, hden, -⟩ := reconfiguredRequest_eq_ok h.request
  have hrequest {cls q weight anchor lag} :
      e'.reconfiguredRequest cls q weight anchor lag
        = e.reconfiguredRequest cls q weight anchor lag :=
    reconfiguredRequest_congr hvalid hvalid' hnum hden
  have hsleeper : e'.sleeperV = e.sleeperV := by rw [h.rest]
  have hlag := h.lag
  cases standing with
  | awake v =>
    have hawake : e.sleeperV = none := by simpa using h.asleep
    have hstamp : e'.lagStamp = v := by rw [h.rest]; rfl
    have hlag' : e'.lagAt v = .ok e'.lag := by
      rw [← hstamp]
      refine lagAt_lagStamp (hsleeper.trans hawake) ?_ (inI128_of_lagAt hawake hlag)
      rw [h.rest]
      exact h.weight
    simp only [lagFor] at hlag
    simp only [reconfigureTo, reconfigure, hsleeper, hlag, hlag', hrequest]
  | frozen v =>
    obtain hlag : e.lag = e'.lag := Except.ok.inj hlag
    simp only [reconfigureTo, reconfigureFrozen, hsleeper, hlag, hrequest]
  | sleeping =>
    obtain hlag : e.lag = e'.lag := Except.ok.inj hlag
    simp only [reconfigureTo, reconfigureSleeping, hsleeper, hlag, hrequest]

/-- **Reconfiguration and back.**  Every successful reconfiguration keeps the lag and the remaining
fraction. After it, the way to `home` is the way there from where the entity started, whatever the
configuration in between. So the way back gives the quantum and the deadline that `home` derives
from the lag and the fraction: those of the start exactly when it had them, and the whole entity if
a reconfiguration to `home` made it. In place it does the same, and one that fails leaves the entity
as it was. -/
theorem reconfigure_round_trip (standing : Standing) (home away : FairConfig) (e : Entity) :
    (∀ e₁, e.reconfigureTo standing away = .ok e₁ →
      e.lagFor standing = .ok e₁.lag ∧
      e₁.request.remainingFractionNum = e.request.remainingFractionNum ∧
      e₁.request.remainingFractionDen = e.request.remainingFractionDen ∧
      e₁.reconfigureTo standing home = e.reconfigureTo standing home ∧
      ∀ e₂, e₁.reconfigureTo standing home = .ok e₂ →
        e₂.lag = e₁.lag ∧ e₂.request.remainingFractionNum = e.request.remainingFractionNum ∧
        e₂.request.remainingFractionDen = e.request.remainingFractionDen ∧
        (e₂.request.q = e.request.q ↔
          requestQuantum home.cls home.weight home.totalWeight = .ok e.request.q) ∧
        (∃ start length, requestStart (e.anchorFor standing) e₂.lag home.weight = .ok start ∧
          e₂.request.remainingVirtualLength home.weight = .ok length ∧
          (e₂.request.deadline = e.request.deadline ↔ e.request.deadline = start + length)) ∧
        ((∃ e₀ : Entity, e₀.reconfigureTo standing home = .ok e) → e₂ = e)) ∧
    (∀ e', reconfigureInPlace standing away e = .ok () e' ↔
      e.reconfigureTo standing away = .ok e') ∧
    ∀ err e', reconfigureInPlace standing away e = .error err e' → e' = e := by
  refine ⟨fun e₁ h₁ => ?_, fun e' => ?_, fun err e' h => ?_⟩
  · have hr₁ := reconfigured_of_ok h₁
    obtain ⟨-, -, -, hnum₁, hden₁, -⟩ := reconfiguredRequest_eq_ok hr₁.request
    refine ⟨hr₁.lag, hnum₁, hden₁, hr₁.trans home, fun e₂ h₂ => ?_⟩
    rw [hr₁.trans home] at h₂
    have hr₂ := reconfigured_of_ok h₂
    obtain ⟨-, -, -, hnum₂, hden₂, start, length, hstart, hlength, hdeadline⟩ :=
      reconfiguredRequest_eq_ok hr₂.request
    refine ⟨Except.ok.inj (hr₂.lag.symm.trans hr₁.lag), hnum₂, hden₂, ?_,
      ⟨start, length, hstart, hlength, ?_⟩, ?_⟩
    · rw [hr₂.quantum, Except.ok.injEq]
    · rw [hdeadline]
      exact eq_comm
    · rintro ⟨e₀, h₀⟩
      have hsame := (reconfigured_of_ok h₀).trans home
      exact Except.ok.inj (h₂.symm.trans (hsame.trans h₀))
  · rw [reconfigureInPlace_eq]
    exact staged_eq_ok
  · rw [reconfigureInPlace_eq] at h
    exact state_of_staged_error h

/-- An entity that has been served for a tick, with a request that runs from `start`. -/
abbrev servedOnce (start deadline : Int) : Entity :=
  ⟨.normal, 1024, -512 * one, one / 2,
    ⟨.normal, 4, 3, 3 * work, 3, 4, 4 * one, start, deadline⟩, none⟩

/-- The same entity in the batch class, with half the weight. -/
abbrev servedBatch : Entity :=
  ⟨.batch, 512, -512 * one, one / 2,
    ⟨.batch, 11, 9, 33 * work / 4, 3, 4, 22 * one, 3 * one / 2, 18 * one⟩, none⟩

theorem servedBatch_back :
    servedBatch.reconfigureTo (.awake (one / 2)) ⟨.normal, 1024, 2048⟩
      = .ok (servedOnce one (4 * one)) := by
  decide +kernel

/-- An entity that has been served for a tick is reconfigured in place and back: the lag, the
fraction and the quantum are those it had. -/
theorem reconfigure_round_trip_served :
    ∃ e c e₁ e₂, (do
        let e ← Entity.new .normal 1024 2048 0
        e.service (Clock.new 2048) 1 0) = .ok (e, c) ∧
      reconfigureInPlace (.awake c.v) ⟨.batch, 512, 1536⟩ e = .ok () e₁ ∧
      reconfigureInPlace (.awake c.v) ⟨.normal, 1024, 2048⟩ e₁ = .ok () e₂ ∧
      e₂.lag = e₁.lag ∧ e₂.request.remainingFractionNum = 3 ∧
      e₂.request.remainingFractionDen = 4 ∧ e₂.request.q = e.request.q := by
  have hserved : (do
        let e ← Entity.new .normal 1024 2048 0
        e.service (Clock.new 2048) 1 0)
      = .ok (servedOnce 0 (4 * one), ⟨one / 2, 0, 2048, 1⟩) := by decide +kernel
  have haway : (servedOnce 0 (4 * one)).reconfigureTo (.awake (one / 2)) ⟨.batch, 512, 1536⟩
      = .ok servedBatch := by decide +kernel
  obtain ⟨hround, hplace, -⟩ :=
    reconfigure_round_trip (.awake (one / 2)) ⟨.normal, 1024, 2048⟩ ⟨.batch, 512, 1536⟩ _
  obtain ⟨-, hplace', -⟩ :=
    reconfigure_round_trip (.awake (one / 2)) ⟨.batch, 512, 1536⟩ ⟨.normal, 1024, 2048⟩ servedBatch
  obtain ⟨hlag, hnum, hden, hq, -⟩ := (hround _ haway).2.2.2.2 _ servedBatch_back
  exact ⟨_, _, _, _, hserved, (hplace _).mpr haway, (hplace' _).mpr servedBatch_back, hlag, hnum,
    hden, hq.mpr (by decide +kernel)⟩

/-- A request that was placed behind its old deadline by a yield, with a tick served, is placed
anew; and one that was issued under another total weight gets another quantum. -/
theorem reconfigure_replaces :
    (∃ e c e₁ e₂, (do
        let e ← Entity.new .normal 1024 2048 0
        (← e.yieldRequest 2048 0).service (Clock.new 2048) 1 0) = .ok (e, c) ∧
      e.reconfigureTo (.awake c.v) ⟨.batch, 512, 1536⟩ = .ok e₁ ∧
      e₁.reconfigureTo (.awake c.v) ⟨.normal, 1024, 2048⟩ = .ok e₂ ∧
      e₂.request.deadline - c.v ≠ e.request.deadline - c.v ∧
      e₂.request.deadline - e₂.request.start ≠ e.request.deadline - e.request.start) ∧
    ∃ e e₁ e₂, Entity.new .normal 1024 2048 0 = .ok e ∧
      e.reconfigureTo (.awake 0) ⟨.batch, 512, 3584⟩ = .ok e₁ ∧
      e₁.reconfigureTo (.awake 0) ⟨.normal, 1024, 4096⟩ = .ok e₂ ∧ e₂.request.q ≠ e.request.q := by
  refine ⟨⟨servedOnce (4 * one) (8 * one), ⟨one / 2, 0, 2048, 1⟩, servedBatch,
      servedOnce one (4 * one), ?_, ?_, servedBatch_back, ?_, ?_⟩,
    ⟨.normal, 1024, 0, 0, ⟨.normal, 4, 4, 4 * work, 1, 1, 4 * one, 0, 4 * one⟩, none⟩,
    ⟨.batch, 512, 0, 0, ⟨.batch, 5, 5, 5 * work, 1, 1, 10 * one, 0, 10 * one⟩, none⟩,
    ⟨.normal, 1024, 0, 0, ⟨.normal, 2, 2, 2 * work, 1, 1, 2 * one, 0, 2 * one⟩, none⟩,
    ?_, ?_, ?_, ?_⟩
  all_goals decide +kernel

end Entity

end KernelAx.Eevdf

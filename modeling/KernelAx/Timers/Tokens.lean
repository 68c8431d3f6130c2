import KernelAx.Timers.Boxes

/-!
# Timer callbacks — tokens

What the slots hold is what the log says of the tokens (`Recorded`), and a box is registered once
(`Published`). Together with the leases and the places of boxes this gives the safety of the raw
pointers: a callback is dropped once, after its cancellation and its last lease.
-/

namespace KernelAx.Timers

open Interleaving
open Function (update update_self update_of_ne)

variable {ι : Type} [DecidableEq ι] {cpu : Nat}

/-! ### Tokens -/

def Event.token : Event → Option TimerCallbackToken
  | .registered token _ => some token
  | _ => none

def tokens (log : List Event) : List TimerCallbackToken := log.filterMap Event.token

/-- How many callbacks have been registered and not cancelled. -/
def liveCount (log : List Event) : Nat := (tokens log).countP fun token => .cancelled token ∉ log

theorem mem_tokens {log : List Event} {token : TimerCallbackToken} :
    token ∈ tokens log ↔ ∃ b, .registered token b ∈ log := by
  simp only [tokens, List.mem_filterMap]
  constructor
  · rintro ⟨e, he, htoken⟩
    cases e with
    | registered t b =>
      cases htoken
      exact ⟨b, he⟩
    | _ => cases htoken
  · rintro ⟨b, hb⟩
    exact ⟨_, hb, rfl⟩

structure Recorded (cpu : Nat) (inner : CallbackInner) (log : List Event) : Prop where
  next : inner.next ≤ callbackCapacity
  current : ∀ {s b : Nat}, (inner.slots s).callback = some b →
    .registered ⟨cpu, s, (inner.slots s).generation⟩ b ∈ log
  issued : ∀ {t : TimerCallbackToken} {b : Nat}, .registered t b ∈ log →
    t.ownerCpu = cpu ∧ t.slot < callbackCapacity ∧ t.generation ≤ (inner.slots t.slot).generation
  live : ∀ {t : TimerCallbackToken} {b : Nat}, .registered t b ∈ log → .cancelled t ∉ log →
    (inner.slots t.slot).generation = t.generation ∧ (inner.slots t.slot).callback = some b ∧
      (inner.slots t.slot).closing = false
  known : ∀ {t : TimerCallbackToken}, .cancelled t ∈ log → ∃ b, .registered t b ∈ log
  dead : ∀ {t : TimerCallbackToken}, .cancelled t ∈ log →
    (inner.slots t.slot).generation = t.generation →
      (inner.slots t.slot).callback = none ∨ (inner.slots t.slot).closing = true
  closing : ∀ {s : Nat}, (inner.slots s).closing = true → (inner.slots s).callback ≠ none →
    (inner.slots s).inFlight ≠ 0
  nodup : (tokens log).Nodup
  len : inner.len = liveCount log

namespace Recorded

variable {inner inner' : CallbackInner} {log : List Event}

theorem note (h : Recorded cpu inner log) {e : Event} (hr : ∀ t b, e ≠ .registered t b)
    (hc : ∀ t, e ≠ .cancelled t) : Recorded cpu inner (e :: log) := by
  have hreg : ∀ t b, .registered t b ∈ e :: log ↔ .registered t b ∈ log := fun t b => by
    simp [Ne.symm (hr t b)]
  have hcan : ∀ t, .cancelled t ∈ e :: log ↔ .cancelled t ∈ log := fun t => by
    simp [Ne.symm (hc t)]
  have htokens : tokens (e :: log) = tokens log := by
    cases e with
    | registered t b => exact absurd rfl (hr t b)
    | _ => rfl
  have hcount : liveCount (e :: log) = liveCount log := by
    unfold liveCount
    rw [htokens]
    simp only [hcan]
  exact
    { next := h.next
      current := fun hs => (hreg _ _).mpr (h.current hs)
      issued := fun ht => h.issued ((hreg _ _).mp ht)
      live := fun ht hn => h.live ((hreg _ _).mp ht) fun hmem => hn ((hcan _).mpr hmem)
      known := fun ht => by
        obtain ⟨b, hb⟩ := h.known ((hcan _).mp ht)
        exact ⟨b, (hreg _ _).mpr hb⟩
      dead := fun ht => h.dead ((hcan _).mp ht)
      closing := h.closing
      nodup := htokens ▸ h.nodup
      len := h.len.trans hcount.symm }

theorem drop {m : Memory} (h : Recorded cpu m.inner m.log) (deferred : Option Nat) :
    Recorded cpu (m.drop deferred).inner (m.drop deferred).log := by
  cases deferred with
  | none => exact h
  | some b => exact h.note nofun nofun

section

variable (h : Recorded cpu inner log)
include h

theorem publish {b : Nat} {t : TimerCallbackToken}
    (op : inner.Registers cpu b (.ok t, inner')) :
    Recorded cpu inner' (.registered t b :: log) := by
  cases op with
  | @filled s _ found free idle slots len next =>
    have hs : s < callbackCapacity := (mem_rotation h.next).mp found
    have hother : ∀ s', s' ≠ s → inner'.slots s' = inner.slots s' := fun s' e => by
      rw [slots, update_of_ne e]
    have hself : inner'.slots s = (inner.slots s).filled b := by rw [slots, update_self]
    -- the new token has a generation above all earlier ones of the slot
    have hnew : ∀ b', .registered ⟨cpu, s, (inner.slots s).generation + 1⟩ b' ∉ log := by
      intro b' hmem
      have hle := (h.issued hmem).2.2
      dsimp only at hle
      omega
    have hcancelled : .cancelled ⟨cpu, s, (inner.slots s).generation + 1⟩ ∉ log := by
      intro hmem
      obtain ⟨b', hb'⟩ := h.known hmem
      exact hnew b' hb'
    have hold : ∀ t, t ≠ ⟨cpu, s, (inner.slots s).generation + 1⟩ → ∀ b',
        .registered t b' ∈ .registered ⟨cpu, s, (inner.slots s).generation + 1⟩ b :: log →
        .registered t b' ∈ log := by
      intro t ht b' hmem
      rcases List.mem_cons.mp hmem with heq | hmem
      · cases heq
        exact absurd rfl ht
      · exact hmem
    constructor
    case next => omega
    case current =>
      intro s' b' hb'
      by_cases e : s' = s
      · subst e
        rw [hself] at hb' ⊢
        cases hb'
        exact List.mem_cons_self
      · rw [hother s' e] at hb' ⊢
        exact List.mem_cons_of_mem _ (h.current hb')
    case issued =>
      intro t b' hmem
      by_cases ht : t = ⟨cpu, s, (inner.slots s).generation + 1⟩
      · subst ht
        exact ⟨rfl, hs, by rw [hself]; exact Nat.le_refl _⟩
      · obtain ⟨hcpu, hslot, hle⟩ := h.issued (hold t ht b' hmem)
        refine ⟨hcpu, hslot, Nat.le_trans hle ?_⟩
        by_cases e : t.slot = s
        · rw [e, hself]
          exact Nat.le_succ _
        · rw [hother _ e]
    case live =>
      intro t b' hmem hnot
      by_cases ht : t = ⟨cpu, s, (inner.slots s).generation + 1⟩
      · subst ht
        rcases List.mem_cons.mp hmem with heq | hmem
        · cases heq
          rw [hself]
          exact ⟨rfl, rfl, rfl⟩
        · exact absurd hmem (hnew b')
      · have hlive := h.live (hold t ht b' hmem) fun hc => hnot (List.mem_cons_of_mem _ hc)
        have e : t.slot ≠ s := fun e => by
          rw [e, free] at hlive
          cases hlive.2.1
        rwa [hother _ e]
    case known =>
      intro t hmem
      obtain ⟨b', hb'⟩ := h.known (by simpa using hmem)
      exact ⟨b', List.mem_cons_of_mem _ hb'⟩
    case dead =>
      intro t hmem hgen
      have hcan : .cancelled t ∈ log := by simpa using hmem
      by_cases e : t.slot = s
      · obtain ⟨b', hb'⟩ := h.known hcan
        have hle := (h.issued hb').2.2
        rw [e, hself] at hgen
        rw [e] at hle
        have : (inner.slots s).generation + 1 = t.generation := hgen
        omega
      · rw [hother _ e] at hgen ⊢
        exact h.dead hcan hgen
    case closing =>
      intro s' hclosing hsome
      by_cases e : s' = s
      · rw [e, hself] at hclosing
        cases hclosing
      · rw [hother s' e] at hclosing hsome ⊢
        exact h.closing hclosing hsome
    case nodup =>
      refine List.nodup_cons.mpr ⟨fun hmem => ?_, h.nodup⟩
      obtain ⟨b', hb'⟩ := mem_tokens.mp hmem
      exact hnew b' hb'
    case len =>
      have hcan : ∀ new t, .cancelled t ∈ Event.registered new b :: log ↔ .cancelled t ∈ log :=
        fun new t => by simp
      rw [len, h.len, liveCount, liveCount, show tokens (_ :: log) = _ :: tokens log from rfl,
        List.countP_cons]
      simp only [hcan, hcancelled, not_false_eq_true, decide_true, if_true]

theorem cancel {t : TimerCallbackToken} {b : Nat}
    {value : CallbackSlot} (hcpu : t.ownerCpu = cpu)
    (hcurrent : (inner.slots t.slot).generation = t.generation)
    (hheld : (inner.slots t.slot).callback = some b)
    (hopen : (inner.slots t.slot).closing = false)
    (hslots : inner'.slots = update inner.slots t.slot value)
    (hgeneration : value.generation = (inner.slots t.slot).generation)
    (hclosing : value.closing = true)
    (hvalue : value.callback = none ∨ value.callback = some b ∧ value.inFlight ≠ 0)
    (hlen : inner'.len = inner.len - 1) (hnext : inner'.next ≤ callbackCapacity) :
    Recorded cpu inner' (.cancelled t :: log) := by
  have hother : ∀ s, s ≠ t.slot → inner'.slots s = inner.slots s := fun s e => by
    rw [hslots, update_of_ne e]
  have hself : inner'.slots t.slot = value := by rw [hslots, update_self]
  have htoken : (⟨cpu, t.slot, (inner.slots t.slot).generation⟩ : TimerCallbackToken) = t := by
    rw [hcurrent, ← hcpu]
  have hregistered : .registered t b ∈ log := htoken ▸ h.current hheld
  have hlive : .cancelled t ∉ log := fun hmem => by
    rcases h.dead hmem hcurrent with hnone | hclosed
    · rw [hheld] at hnone
      cases hnone
    · rw [hopen] at hclosed
      cases hclosed
  -- a token that is current on the slot is the cancelled one
  have honly : ∀ {t' : TimerCallbackToken} {b' : Nat}, .registered t' b' ∈ log →
      t'.slot = t.slot → (inner.slots t.slot).generation = t'.generation → t' = t := by
    intro t' b' hmem hslot hgen
    have hcpu' := (h.issued hmem).1
    rw [← htoken, hgen, ← hslot, ← hcpu']
  constructor
  case next => exact hnext
  case current =>
    intro s b' hb'
    refine List.mem_cons_of_mem _ ?_
    by_cases e : s = t.slot
    · subst e
      rw [hself] at hb' ⊢
      rcases hvalue with hnone | ⟨hsome, -⟩
      · rw [hnone] at hb'
        cases hb'
      · obtain rfl := Option.some.inj (hsome.symm.trans hb')
        rw [hgeneration]
        exact h.current hheld
    · rw [hother s e] at hb' ⊢
      exact h.current hb'
  case issued =>
    intro t' b' hmem
    obtain ⟨hcpu', hslot, hle⟩ := h.issued (by simpa using hmem)
    refine ⟨hcpu', hslot, ?_⟩
    by_cases e : t'.slot = t.slot
    · rw [e, hself, hgeneration, ← e]
      exact hle
    · rwa [hother _ e]
  case live =>
    intro t' b' hmem hnot
    have hmem' : .registered t' b' ∈ log := by simpa using hmem
    have hnot' : t' ≠ t ∧ .cancelled t' ∉ log := by simpa [not_or] using hnot
    have hold := h.live hmem' hnot'.2
    have e : t'.slot ≠ t.slot := fun e => hnot'.1 (honly hmem' e (e ▸ hold.1))
    rwa [hother _ e]
  case known =>
    intro t' hmem
    rcases List.mem_cons.mp hmem with heq | hmem
    · cases heq
      exact ⟨b, List.mem_cons_of_mem _ hregistered⟩
    · obtain ⟨b', hb'⟩ := h.known hmem
      exact ⟨b', List.mem_cons_of_mem _ hb'⟩
  case dead =>
    intro t' hmem hgen
    by_cases e : t'.slot = t.slot
    · rw [e, hself]
      exact .inr hclosing
    · rw [hother _ e] at hgen ⊢
      rcases List.mem_cons.mp hmem with heq | hmem
      · cases heq
        exact absurd rfl e
      · exact h.dead hmem hgen
  case closing =>
    intro s hs hsome
    by_cases e : s = t.slot
    · rw [e, hself] at hsome ⊢
      exact hvalue.elim (fun hnone => absurd hnone hsome) And.right
    · rw [hother s e] at hs hsome ⊢
      exact h.closing hs hsome
  case nodup => exact h.nodup
  case len =>
    have hmem : t ∈ tokens log := mem_tokens.mpr ⟨b, hregistered⟩
    have hcount := countP_of_ne (p := fun t' => decide (Event.cancelled t' ∉ log))
      (q := fun t' => decide (Event.cancelled t' ∉ Event.cancelled t :: log)) h.nodup hmem
      fun t' _ ht' => by simp [ht']
    have hcount' : liveCount (.cancelled t :: log) + 1 = liveCount log := by
      simpa [liveCount, hlive, show tokens (.cancelled t :: log) = tokens log from rfl] using hcount
    rw [hlen, h.len]
    omega

/-- A step that takes a callback out of a closed slot, or keeps the callbacks, and logs nothing. -/
theorem slots (hnext : inner'.next ≤ callbackCapacity)
    (hgeneration : ∀ s, (inner'.slots s).generation = (inner.slots s).generation)
    (hclosing : ∀ s, (inner'.slots s).closing = (inner.slots s).closing)
    (hcallback : ∀ s, (inner'.slots s).callback = (inner.slots s).callback ∨
      (inner'.slots s).callback = none ∧ (inner.slots s).closing = true)
    (hbusy : ∀ s, (inner'.slots s).closing = true → (inner'.slots s).callback ≠ none →
      (inner'.slots s).inFlight ≠ 0)
    (hlen : inner'.len = inner.len) : Recorded cpu inner' log where
  next := hnext
  current := by
    intro s b hb
    rw [hgeneration]
    refine h.current ?_
    rcases hcallback s with hsame | ⟨hnone, -⟩
    · rw [← hsame, hb]
    · rw [hnone] at hb
      cases hb
  issued hmem := by
    rw [hgeneration]
    exact h.issued hmem
  live := by
    intro t b hmem hnot
    obtain ⟨hgen, hheld, hopen⟩ := h.live hmem hnot
    refine ⟨(hgeneration _).trans hgen, ?_, (hclosing _).trans hopen⟩
    rcases hcallback t.slot with hsame | ⟨-, hclosed⟩
    · rw [hsame, hheld]
    · rw [hopen] at hclosed
      cases hclosed
  __ := h
  dead := by
    intro t hmem hgen
    rcases h.dead hmem ((hgeneration _).symm.trans hgen) with hnone | hclosed
    · refine .inl ?_
      rcases hcallback t.slot with hsame | ⟨hnone', -⟩
      · rw [hsame, hnone]
      · exact hnone'
    · exact .inr ((hclosing _).trans hclosed)
  closing hs hsome := hbusy _ hs hsome
  len := hlen.trans h.len

theorem update {s : Nat} {value : CallbackSlot}
    (hslots : inner'.slots = update inner.slots s value)
    (hnext : inner'.next ≤ callbackCapacity)
    (hgeneration : value.generation = (inner.slots s).generation)
    (hclosing : value.closing = (inner.slots s).closing)
    (hcallback : value.callback = (inner.slots s).callback ∨
      value.callback = none ∧ (inner.slots s).closing = true)
    (hbusy : value.closing = true → value.callback ≠ none → value.inFlight ≠ 0)
    (hlen : inner'.len = inner.len) : Recorded cpu inner' log := by
  have hself : inner'.slots s = value := by rw [hslots, update_self]
  have hother : ∀ s', s' ≠ s → inner'.slots s' = inner.slots s' := fun s' e => by
    rw [hslots, update_of_ne e]
  refine h.slots hnext (fun s' => ?_) (fun s' => ?_) (fun s' => ?_) (fun s' => ?_) hlen
  all_goals by_cases e : s' = s
  · rw [e, hself, hgeneration]
  · rw [hother s' e]
  · rw [e, hself, hclosing]
  · rw [hother s' e]
  · rw [e, hself]
    exact hcallback
  · rw [hother s' e]
    exact .inl rfl
  · rw [e, hself]
    exact hbusy
  · rw [hother s' e]
    exact h.closing

theorem finish {lease : CallbackLease} {deferred : Option Nat}
    (hbound : lease.slot < callbackCapacity) (op : inner.Finishes lease (deferred, inner')) :
    Recorded cpu inner' log := by
  cases op with
  | last closed one slots len next =>
    exact h.update slots (next ▸ Nat.le_of_lt hbound) rfl rfl (.inr ⟨rfl, closed⟩)
      (fun _ hsome => absurd rfl hsome) len
  | counted count more slots len next =>
    exact h.update slots (next ▸ h.next) rfl rfl (.inl rfl) (fun hclosed _ => more hclosed) len

end

end Recorded

def Call.cancels : Call → Option TimerCallbackToken
  | .cancel token => some token
  | _ => none

variable {c : Config ι Memory Call} {b : Nat} {m : Memory}

theorem run_cancels (h : (system cpu ι).Run (initial ι) c) :
    ∀ i token, (c.calls i).cancels = some token → token.ownerCpu = cpu := by
  refine (h.points (M := fun _ => True)
    (P := fun _ _ k => ∀ token, k.cancels = some token → token.ownerCpu = cpu) ?_ ?_
    ⟨trivial, ?_⟩).2
  · intro c i k _ _ _ _ starts token htoken
    cases k <;> cases htoken
    exact starts
  · intro c i m k _ _ hall step
    refine ⟨trivial, fun token htoken => ?_, fun j _ => hall j⟩
    generalize c.calls i = k₀ at step
    cases move_of_mem step <;> cases htoken
  · intro i token htoken
    cases htoken

/-- **What the slots hold is what the log says**, over every run. -/
theorem run_recorded (h : (system cpu ι).Run (initial ι) c) :
    Recorded cpu c.shared.inner c.shared.log := by
  refine h.reached (P := fun c => Recorded cpu c.shared.inner c.shared.log) ?_ ?_
  · intro i c c' hrun hnext hrec
    have hleased := run_leased hrun
    have howned := run_cancels hrun i
    cases hnext with
    | call idle starts => exact hrec
    | @act m k step =>
      have hmove := move_of_mem step
      generalize hk : c.calls i = k₀ at hmove howned
      cases hmove with
      | allocate | noMemory | refuse | done => exact hrec
      | publish op => exact hrec.publish op
      | reject => exact hrec.drop _
      | cancel op =>
        have hcpu := howned _ rfl
        cases op with
        | stale dead => exact hrec
        | taken bound current held «open» idle slots len next =>
          exact hrec.cancel hcpu current held «open» slots rfl rfl (.inl rfl) len
            (next ▸ Nat.le_of_lt bound)
        | deferred bound current held «open» busy slots len next =>
          exact hrec.cancel hcpu current held «open» slots rfl rfl (.inr ⟨held, busy⟩) len
            (next ▸ hrec.next)
      | @answer token cancelled =>
        cases cancelled with
        | false => exact hrec
        | true => exact hrec.note nofun nofun
      | dispatch =>
        refine hrec.slots hrec.next (fun s => ?_) (fun s => ?_)
          (fun s => .inl (c.shared.inner.beginDispatch_callback s)) (fun s => ?_) rfl
        all_goals dsimp only [CallbackInner.beginDispatch]
        · split_ifs <;> rfl
        · split_ifs <;> rfl
        · split_ifs
          · exact fun _ _ => Nat.succ_ne_zero _
          · exact hrec.closing
      | invoke => exact hrec.note nofun nofun
      | @finish lease rest =>
        obtain ⟨hserved, hop⟩ := hleased.running hk
        exact hrec.finish hserved.bound hop
      | discard | next => exact hrec.drop _
  · exact
      { next := Nat.zero_le _
        current := nofun
        issued := nofun
        live := nofun
        known := nofun
        dead := nofun
        closing := nofun
        nodup := List.nodup_nil
        len := rfl }

/-! ### Registered boxes -/

/-- The box of a registration that has not been published. -/
def Call.unpublished : Call → Option Nat
  | .publish callback | .reject callback _ => some callback
  | _ => none

theorem Call.box_of_unpublished {k : Call} (h : k.unpublished = some b) : k.box = some b := by
  cases k <;> first | exact h | cases h

structure Published (c : Config ι Memory Call) : Prop where
  unpublished : ∀ {i : ι} {b : Nat}, (c.calls i).unpublished = some b → ∀ t,
    .registered t b ∉ c.shared.log
  unique : ∀ {t t' : TimerCallbackToken} {b : Nat}, .registered t b ∈ c.shared.log →
    .registered t' b ∈ c.shared.log → t = t'
  allocated : ∀ {t : TimerCallbackToken} {b : Nat}, .registered t b ∈ c.shared.log →
    b < c.shared.boxes

theorem Published.stay (h : Published c) {i : ι} {k : Call}
    (hlog : ∀ t b, .registered t b ∈ m.log ↔ .registered t b ∈ c.shared.log)
    (hboxes : c.shared.boxes ≤ m.boxes)
    (hk : ∀ b, k.unpublished = some b →
      (c.calls i).unpublished = some b ∨ ∀ t, .registered t b ∉ c.shared.log) :
    Published ⟨m, update c.calls i k⟩ where
  unpublished := by
    intro j b hb t hmem
    have hmem' := (hlog t b).mp hmem
    by_cases e : j = i
    · subst e
      simp only [update_self] at hb
      rcases hk b hb with hold | hfresh
      · exact h.unpublished hold t hmem'
      · exact hfresh t hmem'
    · simp only [update_of_ne e] at hb
      exact h.unpublished hb t hmem'
  unique hmem hmem' := h.unique ((hlog _ _).mp hmem) ((hlog _ _).mp hmem')
  allocated hmem := Nat.lt_of_lt_of_le (h.allocated ((hlog _ _).mp hmem)) hboxes

theorem Published.publish {c : Config ι Memory Call} (h : Published c) {place : Nat → Place ι}
    (hplaced : Placed place c) {i : ι} {b : Nat} (hk : c.calls i = .publish b) {m : Memory}
    {t : TimerCallbackToken} (hlog : m.log = .registered t b :: c.shared.log)
    (hboxes : m.boxes = c.shared.boxes) :
    Published ⟨m, update c.calls i (.registered (.ok t))⟩ := by
  have hplace : place b = .call i := (hplaced.call i b).mp (by rw [hk]; rfl)
  have hnew : ∀ t, .registered t b ∉ c.shared.log := h.unpublished (i := i) (by rw [hk]; rfl)
  constructor
  case unpublished =>
    intro j b' hb' t' hmem
    by_cases e : j = i
    · subst e
      simp only [update_self] at hb'
      cases hb'
    · simp only [update_of_ne e] at hb'
      dsimp only at hmem
      rw [hlog] at hmem
      rcases List.mem_cons.mp hmem with heq | hmem
      · cases heq
        have hother := (hplaced.call j b).mp (Call.box_of_unpublished hb')
        rw [hplace] at hother
        cases hother
        exact e rfl
      · exact h.unpublished hb' t' hmem
  case unique =>
    intro t₁ t₂ b' hmem₁ hmem₂
    dsimp only at hmem₁ hmem₂
    rw [hlog] at hmem₁ hmem₂
    rcases List.mem_cons.mp hmem₁ with heq₁ | hmem₁
    · cases heq₁
      rcases List.mem_cons.mp hmem₂ with heq₂ | hmem₂
      · cases heq₂
        rfl
      · exact absurd hmem₂ (hnew t₂)
    · rcases List.mem_cons.mp hmem₂ with heq₂ | hmem₂
      · cases heq₂
        exact absurd hmem₁ (hnew t₁)
      · exact h.unique hmem₁ hmem₂
  case allocated =>
    intro t' b' hmem
    dsimp only at hmem ⊢
    rw [hlog] at hmem
    rw [hboxes]
    rcases List.mem_cons.mp hmem with heq | hmem
    · cases heq
      by_contra hge
      have hfresh := (hplaced.fresh b).mp (Nat.le_of_not_lt hge)
      rw [hplace] at hfresh
      cases hfresh
    · exact h.allocated hmem

theorem Memory.registered_mem_drop {deferred : Option Nat} {t : TimerCallbackToken} :
    .registered t b ∈ (m.drop deferred).log ↔ .registered t b ∈ m.log := by
  cases deferred <;> simp [Memory.drop]

theorem Memory.registered_mem_note {condition : Bool} {e : Event}
    (he : ∀ t b, e ≠ .registered t b) {t : TimerCallbackToken} :
    .registered t b ∈ (m.note condition e).log ↔ .registered t b ∈ m.log := by
  cases condition with
  | false => exact .rfl
  | true => simp [Memory.note, Ne.symm (he t b)]

theorem run_published (h : (system cpu ι).Run (initial ι) c) : Published c := by
  refine h.reached (P := Published) ?_ ⟨nofun, nofun, nofun⟩
  intro i c c' hrun hnext hpub
  obtain ⟨place, hplaced⟩ := run_placed hrun
  cases hnext with
  | @call k idle starts =>
    refine hpub.stay (fun _ _ => .rfl) (Nat.le_refl _) fun b hb => ?_
    cases k <;> first | (cases starts; done) | cases hb
  | @act m k step =>
    have hmove := move_of_mem step
    generalize hk : c.calls i = k₀ at hmove
    cases hmove with
    | allocate =>
      refine hpub.stay (fun _ _ => .rfl) (Nat.le_succ _) fun b hb => .inr fun t hmem => ?_
      cases hb
      exact Nat.lt_irrefl _ (hpub.allocated hmem)
    | noMemory | done => exact hpub.stay (fun _ _ => .rfl) (Nat.le_refl _) nofun
    | publish op => exact hpub.publish hplaced hk rfl rfl
    | refuse =>
      exact hpub.stay (fun _ _ => .rfl) (Nat.le_refl _) fun b hb => .inl (by rw [hk]; exact hb)
    | reject | discard | next =>
      exact hpub.stay (fun _ _ => Memory.registered_mem_drop) (by simp) nofun
    | cancel | answer | invoke =>
      exact hpub.stay (fun _ _ => Memory.registered_mem_note (by simp)) (by simp) nofun
    | dispatch | finish => exact hpub.stay (fun _ _ => .rfl) (Nat.le_refl _) nofun

/-! ### The safety of the leases -/

/-- What a dispatch and the owner of a token can rely on. -/
structure Safe (cpu : Nat) (c : Config ι Memory Call) : Prop where
  /-- `in_flight` is the number of leases taken and not yet finished -/
  counted : ∀ slot, Tally (fun i => (c.calls i).leasesOn slot) (c.shared.inner.slots slot).inFlight
  /-- a leased callback is in its slot, whose generation is still that of the lease, and has not
  been dropped -/
  leased : ∀ {i : ι} {lease : CallbackLease}, lease ∈ (c.calls i).leases →
    (c.shared.inner.slots lease.slot).generation = lease.generation ∧
      (c.shared.inner.slots lease.slot).callback = some lease.callback ∧
      .dropped lease.callback ∉ c.shared.log
  /-- a registered callback is dropped at most once, and not before it is cancelled and its last
  lease has ended -/
  dropped : ∀ {token : TimerCallbackToken} {b : Nat}, .registered token b ∈ c.shared.log →
    c.shared.log.count (.dropped b) ≤ 1 ∧
      (.dropped b ∈ c.shared.log → .cancelled token ∈ c.shared.log ∧
        ∀ i, ∀ lease ∈ (c.calls i).leases, lease.callback ≠ b)
  /-- after that it has been dropped, or the call that ended it is about to drop it -/
  reclaimed : ∀ {token : TimerCallbackToken} {b : Nat}, .registered token b ∈ c.shared.log →
    .cancelled token ∈ c.shared.log → (∀ i, ∀ lease ∈ (c.calls i).leases, lease.callback ≠ b) →
      c.shared.log.count (.dropped b) = 1 ∨
        ∃ i, (∃ token cancelled, c.calls i = .discard token cancelled (some b)) ∨
          ∃ rest, c.calls i = .finish (some b) rest
  /-- `len` is the number of callbacks registered and not cancelled -/
  len : c.shared.inner.len = liveCount c.shared.log
  /-- a token that is not live cancels nothing -/
  stale : ∀ {token : TimerCallbackToken}, token.ownerCpu = cpu →
    (∀ b, .registered token b ∈ c.shared.log → .cancelled token ∈ c.shared.log) →
      c.shared.inner.cancel token = ((false, none), c.shared.inner)

section Safety

variable {c : Config ι Memory Call} {place : Nat → Place ι} {token : TimerCallbackToken} {b : Nat}

/-- A registered box is in the slot of its token, with a call that is to drop it, or dropped. -/
theorem registered_place (hplaced : Placed place c)
    (hrec : Recorded cpu c.shared.inner c.shared.log) (hpub : Published c)
    (hmem : .registered token b ∈ c.shared.log) :
    (c.shared.inner.slots token.slot).generation = token.generation ∧
        (c.shared.inner.slots token.slot).callback = some b ∨
      (∃ i, (c.calls i).box = some b ∧ (c.calls i).unpublished = none) ∨ place b = .dropped := by
  cases hplace : place b with
  | fresh =>
    have hlt := hpub.allocated hmem
    have hge := (hplaced.fresh b).mpr hplace
    omega
  | call i =>
    have hbox := (hplaced.call i b).mpr hplace
    refine .inr (.inl ⟨i, hbox, ?_⟩)
    cases hun : (c.calls i).unpublished with
    | none => rfl
    | some b' =>
      obtain rfl := Option.some.inj ((Call.box_of_unpublished hun).symm.trans hbox)
      exact absurd hmem (hpub.unpublished hun token)
  | slot s =>
    have hheld := (hplaced.slot s b).mpr hplace
    obtain rfl := hpub.unique hmem (hrec.current hheld)
    exact .inl ⟨rfl, hheld⟩
  | dropped => exact .inr (.inr rfl)

theorem mem_dropped_iff (hplaced : Placed place c) :
    .dropped b ∈ c.shared.log ↔ place b = .dropped := by
  rw [← List.count_pos_iff, hplaced.dropped]
  split_ifs with h <;> simp [h]

/-- **Timer callback leases are safe**, in every run. -/
theorem callbacks_safe (h : (system cpu ι).Run (initial ι) c) : Safe cpu c := by
  have hleased := run_leased h
  have hrec := run_recorded h
  have hpub := run_published h
  obtain ⟨place, hplaced⟩ := run_placed h
  -- a box under lease is in a slot
  have hslot : ∀ {i lease}, lease ∈ (c.calls i).leases → place lease.callback = .slot lease.slot :=
    fun hmem => (hplaced.slot _ _).mp (hleased.served _ _ hmem).held
  constructor
  case counted => exact hleased.counted
  case leased =>
    intro i lease hmem
    obtain ⟨-, hcurrent, hheld⟩ := hleased.served i lease hmem
    refine ⟨hcurrent, hheld, fun hdropped => ?_⟩
    have := (mem_dropped_iff hplaced).mp hdropped
    rw [hslot hmem] at this
    cases this
  case dropped =>
    intro token b hmem
    refine ⟨by rw [hplaced.dropped]; split_ifs <;> omega, fun hdropped => ⟨?_, ?_⟩⟩
    · by_contra hlive
      have hheld := (hrec.live hmem hlive).2.1
      have hplace := (hplaced.slot _ _).mp hheld
      rw [(mem_dropped_iff hplaced).mp hdropped] at hplace
      cases hplace
    · rintro i lease hlease rfl
      have hplace := hslot hlease
      rw [(mem_dropped_iff hplaced).mp hdropped] at hplace
      cases hplace
  case reclaimed =>
    intro token b hmem hcancelled hnone
    rcases registered_place hplaced hrec hpub hmem with ⟨hgen, hheld⟩ | ⟨i, hbox, hun⟩ | hdropped
    · -- a cancelled callback that is still in its slot has a lease
      exfalso
      rcases hrec.dead hcancelled hgen with hempty | hclosed
      · rw [hheld] at hempty
        cases hempty
      · have hbusy := hrec.closing hclosed (by rw [hheld]; exact nofun)
        obtain ⟨i, hi⟩ := (hleased.counted token.slot).exists_ne_zero hbusy
        obtain ⟨lease, hlease, hon⟩ := List.countP_pos_iff.mp (Nat.pos_of_ne_zero hi)
        have hserved := (hleased.served i lease hlease).held
        rw [beq_iff_eq.mp hon, hheld] at hserved
        exact hnone i lease hlease (Option.some.inj hserved).symm
    · refine .inr ⟨i, ?_⟩
      cases hk : c.calls i with
      | discard token cancelled deferred =>
        rw [hk] at hbox
        cases hbox
        exact .inl ⟨_, _, rfl⟩
      | finish deferred rest =>
        rw [hk] at hbox
        cases hbox
        exact .inr ⟨_, rfl⟩
      | publish | reject =>
        rw [hk] at hun
        cases hun
      | _ =>
        rw [hk] at hbox
        cases hbox
    · exact .inl (by rw [hplaced.dropped, if_pos hdropped])
  case len => exact hrec.len
  case stale =>
    intro token hcpu hstale
    -- a token that the registry would cancel is registered and not cancelled
    have hdead : ∀ b, (c.shared.inner.slots token.slot).generation = token.generation →
        (c.shared.inner.slots token.slot).callback = some b →
        (c.shared.inner.slots token.slot).closing = false → False := by
      intro b hcurrent hheld hopen
      have hmem := hrec.current hheld
      rw [hcurrent, ← hcpu] at hmem
      rcases hrec.dead (hstale b hmem) hcurrent with hempty | hclosed
      · rw [hheld] at hempty
        cases hempty
      · rw [hopen] at hclosed
        cases hclosed
    have hop := c.shared.inner.cancels token
    generalize c.shared.inner.cancel token = r at hop
    cases hop with
    | stale => rfl
    | taken bound current held «open» | deferred bound current held «open» =>
      exact (hdead _ current held «open»).elim

end Safety

/-- A registration, a dispatch, and the cancellation of what was registered. -/
abbrev threeCalls : Config Nat Memory Call :=
  (((initial Nat).calling 0 .register).calling 1 .dispatch).calling 2 (.cancel ⟨0, 0, 1⟩)

theorem threeCalls_run : (system 0 Nat).Run (initial Nat) threeCalls :=
  ((System.Run.calling .refl rfl trivial).calling rfl trivial).calling rfl rfl

/-- The callback is cancelled while it runs: it is kept until the dispatch is done with it. -/
theorem callbacks_safe_running :
    let underway := (system 0 Nat).exec threeCalls [0, 0, 1, 1, 2, 2, 2]
    let finished := (system 0 Nat).exec threeCalls [0, 0, 1, 1, 2, 2, 2, 1, 1, 1]
    .dropped 0 ∉ underway.shared.log ∧ finished.shared.log.count (.dropped 0) ≤ 1 ∧
      .dropped 0 ∈ finished.shared.log := by
  intro underway finished
  have hlease : ⟨0, 1, 0⟩ ∈ (underway.calls 1).leases := List.mem_cons_self
  exact ⟨((callbacks_safe (threeCalls_run.exec _)).leased hlease).2.2,
    ((callbacks_safe (threeCalls_run.exec _)).dropped
      (show .registered ⟨0, 0, 1⟩ 0 ∈ finished.shared.log by decide)).1, by decide⟩

end KernelAx.Timers

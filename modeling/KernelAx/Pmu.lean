import Mathlib.Data.List.Basic

/-!
# PMU sessions

A session starts, reads and stops the counters that it has reserved, and keeps one flag for all of
them. A start that fails is rolled back; if a counter cannot be stopped, there or in `stop`, the
flag stays up so that it can be stopped later, while the others no longer count.
-/

namespace KernelAx.Pmu

inductive Event where
  | cpuCycles
  | instructions
  | dataTlbReadMisses
  | dataTlbWriteMisses
  | instructionTlbReadMisses

inductive Error where
  | unsupported
  | noCounter
  | emptySession
  | capacityExceeded
  | duplicateEvent
  | alreadyRunning
  | notRunning
  | invalidRequest
  | valueUnavailable
  | backendFailure (code : Int)

/-- A backend with states `β` and counters `γ`: the operations that a session calls once it is open,
and of its capabilities the one that is read then. -/
structure Backend (β γ : Type) where
  hasConsistentSnapshot : β → Bool
  start : γ → β → Except Error Unit × β
  read : γ → β → Except Error (BitVec 64) × β
  stop : γ → β → Except Error Unit × β

/-- The values of all counters of a session; `consistent` if they were read at once. -/
structure Snapshot where
  events : List Event
  values : List (BitVec 64)
  consistent : Bool

/-- An open session, with the counters and events of its first `len` slots. -/
structure Session (β γ : Type) where
  backend : β
  counters : List γ
  events : List Event
  running : Bool

variable {β γ : Type} (B : Backend β γ)

/-- The loop of `start`, with the counters that it has started, the latest first. -/
def startLoop : List γ → List γ → β → (Option Error × List γ) × β
  | started, [], b => ((none, started), b)
  | started, counter :: rest, b =>
    match B.start counter b with
    | (.ok (), b) => startLoop (counter :: started) rest b
    | (.error e, b) => ((some e, started), b)

/-- The loop of `stop`, and of the rollback in `start`, with the first error. -/
def stopLoop : List γ → Option Error → β → Option Error × β
  | [], error, b => (error, b)
  | counter :: rest, error, b =>
    match B.stop counter b with
    | (.ok (), b) => stopLoop rest error b
    | (.error e, b) => stopLoop rest (error.or (some e)) b

/-- The loop of `snapshot`, with the values that it has read. -/
def readLoop : List (BitVec 64) → List γ → β → Except Error (List (BitVec 64)) × β
  | values, [], b => (.ok values, b)
  | values, counter :: rest, b =>
    match B.read counter b with
    | (.ok value, b) => readLoop (values ++ [value]) rest b
    | (.error e, b) => (.error e, b)

namespace Session

def start (s : Session β γ) : Except Error Unit × Session β γ :=
  if s.running then (.error .alreadyRunning, s)
  else
    match startLoop B [] s.counters s.backend with
    | ((none, _), backend) => (.ok (), { s with backend, running := true })
    | ((some e, started), backend) =>
      let (cleanup, backend) := stopLoop B started none backend
      (.error (cleanup.getD e), { s with backend, running := cleanup.isSome })

def snapshot (s : Session β γ) : Except Error Snapshot × Session β γ :=
  if !s.running then (.error .notRunning, s)
  else
    match readLoop B [] s.counters s.backend with
    | (.error e, backend) => (.error e, { s with backend })
    | (.ok values, backend) =>
      (.ok ⟨s.events, values, B.hasConsistentSnapshot backend⟩, { s with backend })

def stop (s : Session β γ) : Except Error Unit × Session β γ :=
  if !s.running then (.error .notRunning, s)
  else
    let (error, backend) := stopLoop B s.counters.reverse none s.backend
    (error.elim (.ok ()) .error, { s with backend, running := error.isSome })

end Session

/-- The operations of a session. -/
inductive Op where
  | start
  | snapshot
  | stop

def Op.perform (s : Session β γ) : Op → Bool × Session β γ
  | .start => ((s.start B).1.isOk, (s.start B).2)
  | .snapshot => ((s.snapshot B).1.isOk, (s.snapshot B).2)
  | .stop => ((s.stop B).1.isOk, (s.stop B).2)

/-- A sequence of calls, the latest first. -/
inductive Runs (s₀ : Session β γ) : List (Op × Bool) → Session β γ → Prop
  | opened : Runs s₀ [] s₀
  | call {calls : List (Op × Bool)} {s : Session β γ} (run : Runs s₀ calls s) (op : Op) :
      Runs s₀ ((op, (op.perform B s).1) :: calls) (op.perform B s).2

/-! ### What the flag says -/

/-- The backend counts as its answers say, one counter at a time: a start that fails leaves the
counter stopped, and a stop that fails leaves it as it was. -/
structure Backend.Counts (counting : β → γ → Prop) : Prop where
  start (c : γ) (b : β) (d : γ) : counting (B.start c b).2 d ↔
    d = c ∧ (B.start c b).1.isOk = true ∨ d ≠ c ∧ counting b d
  stop (c : γ) (b : β) (d : γ) : counting (B.stop c b).2 d ↔
    counting b d ∧ (d = c → (B.stop c b).1.isOk = false)
  read (c : γ) (b : β) (d : γ) : counting (B.read c b).2 d ↔ counting b d

/-- Since the last successful start there was no call of `stop`. -/
def Whole : List (Op × Bool) → Prop
  | [] | (.stop, _) :: _ => False
  | (.start, true) :: _ => True
  | (.start, false) :: calls | (.snapshot, _) :: calls => Whole calls

/-- What the calls made so far say about which counters count. -/
structure Faithful (counting : β → γ → Prop) (calls : List (Op × Bool)) (s : Session β γ) :
    Prop where
  idle : s.running = false → ∀ c ∈ s.counters, ¬ counting s.backend c
  whole : Whole calls → s.running = true ∧ ∀ c ∈ s.counters, counting s.backend c

variable {B} {counting : β → γ → Prop} (hB : B.Counts counting)
include hB

theorem startLoop_ok {rest started started' : List γ} {b b' : β}
    (h : startLoop B started rest b = ((none, started'), b')) (c : γ) :
    counting b c ∨ c ∈ rest → counting b' c := by
  induction rest generalizing started b with
  | nil =>
    cases h
    exact fun hc => hc.resolve_right List.not_mem_nil
  | cons counter rest ih =>
    have hstart := hB.start counter b c
    unfold startLoop at h
    split at h
    · next b₁ heq =>
      rw [heq] at hstart
      refine fun hc => ih h ?_
      by_cases hcounter : c = counter
      · exact .inl (hstart.mpr (.inl ⟨hcounter, rfl⟩))
      · exact hc.imp (fun hc => hstart.mpr (.inr ⟨hcounter, hc⟩))
          fun hc => (List.mem_cons.mp hc).resolve_left hcounter
    · cases h

/-- After a start that fails, of the counters that were stopped only those that it lists count. -/
theorem startLoop_error {rest started started' : List γ} {b b' : β} {e : Error}
    (h : startLoop B started rest b = ((some e, started'), b')) (c : γ)
    (hb : counting b c → c ∈ started) : counting b' c → c ∈ started' := by
  induction rest generalizing started b with
  | nil => cases h
  | cons counter rest ih =>
    have hstart := hB.start counter b c
    unfold startLoop at h
    split at h
    · next b₁ heq =>
      rw [heq] at hstart
      refine ih h fun hc => ?_
      rcases hstart.mp hc with ⟨rfl, -⟩ | ⟨-, hc⟩
      · exact List.mem_cons_self
      · exact List.mem_cons_of_mem counter (hb hc)
    · next e b₁ heq =>
      cases h
      rw [heq] at hstart
      intro hc
      rcases hstart.mp hc with ⟨-, hok⟩ | ⟨-, hc⟩
      · cases hok
      · exact hb hc

/-- If no stop fails, none of the counters is counting. -/
theorem stopLoop_none {l : List γ} {error : Option Error} {b b' : β}
    (h : stopLoop B l error b = (none, b')) (c : γ) :
    error = none ∧ (counting b' c → counting b c ∧ c ∉ l) := by
  induction l generalizing error b with
  | nil =>
    cases h
    exact ⟨rfl, fun hc => ⟨hc, List.not_mem_nil⟩⟩
  | cons counter rest ih =>
    have hstop := hB.stop counter b c
    unfold stopLoop at h
    split at h
    · next b₁ heq =>
      rw [heq] at hstop
      obtain ⟨herror, hrest⟩ := ih h
      refine ⟨herror, fun hc => ?_⟩
      obtain ⟨hc₁, hmem⟩ := hrest hc
      obtain ⟨hcounting, hcounter⟩ := hstop.mp hc₁
      exact ⟨hcounting, fun h => (List.mem_cons.mp h).elim (nomatch hcounter ·) hmem⟩
    · obtain ⟨herror, -⟩ := ih h
      cases error <;> cases herror

theorem readLoop_counting (values : List (BitVec 64)) (rest : List γ) (b : β) (c : γ) :
    counting (readLoop B values rest b).2 c ↔ counting b c := by
  induction rest generalizing values b with
  | nil => rfl
  | cons counter rest ih =>
    have hread := hB.read counter b c
    unfold readLoop
    split <;> rename_i heq <;> rw [heq] at hread
    · exact (ih ..).trans hread
    · exact hread

variable {calls : List (Op × Bool)} {s s₀ : Session β γ}

theorem Faithful.start (h : Faithful counting calls s) :
    Faithful counting ((Op.start, (s.start B).1.isOk) :: calls) (s.start B).2 := by
  unfold Session.start
  split_ifs with hrunning
  · exact ⟨h.idle, h.whole⟩
  split
  · next started b' heq =>
    exact ⟨nofun, fun _ => ⟨rfl, fun c hc => startLoop_ok hB heq c (.inr hc)⟩⟩
  · next e started b' heq =>
    refine ⟨fun hstopped c hc hcounting => ?_, fun hwhole => absurd (h.whole hwhole).1 hrunning⟩
    have hidle := h.idle (eq_false_of_ne_true hrunning) c hc
    have hnone := Option.not_isSome_iff_eq_none.mp (ne_true_of_eq_false hstopped)
    obtain ⟨hcounting', hmem⟩ := (stopLoop_none hB (Prod.ext hnone rfl) c).2 hcounting
    exact hmem (startLoop_error hB heq c (absurd · hidle) hcounting')

theorem Faithful.snapshot (h : Faithful counting calls s) :
    Faithful counting ((Op.snapshot, (s.snapshot B).1.isOk) :: calls) (s.snapshot B).2 := by
  have hread := readLoop_counting hB [] s.counters s.backend
  unfold Session.snapshot
  split_ifs
  · exact ⟨h.idle, h.whole⟩
  split <;> next heq =>
    rw [heq] at hread
    exact ⟨fun hidle c hc => mt (hread c).mp (h.idle hidle c hc),
      fun hwhole => (h.whole hwhole).imp_right fun hall c hc => (hread c).mpr (hall c hc)⟩

theorem Faithful.stop (h : Faithful counting calls s) :
    Faithful counting ((Op.stop, (s.stop B).1.isOk) :: calls) (s.stop B).2 := by
  refine ⟨?_, False.elim⟩
  unfold Session.stop
  split_ifs
  · exact h.idle
  · intro hstopped c hc hcounting
    have hnone := Option.not_isSome_iff_eq_none.mp (ne_true_of_eq_false hstopped)
    obtain ⟨-, hmem⟩ := (stopLoop_none hB (Prod.ext hnone rfl) c).2 hcounting
    exact hmem (List.mem_reverse.mpr hc)

/-- **The running state of a session.**  Whatever calls were made on a session whose counters were
stopped when it was opened: if it is not running, no counter is counting; a snapshot succeeds only
on a running session, and all counters are counting if `stop` was not called since the last start
that succeeded. -/
theorem running_faithful (hstopped : ∀ c ∈ s₀.counters, ¬ counting s₀.backend c)
    (run : Runs B s₀ calls s) :
    (s.running = false → ∀ c ∈ s.counters, ¬ counting s.backend c) ∧
    ((s.snapshot B).1.isOk → s.running = true ∧
      (Whole calls → ∀ c ∈ s.counters, counting s.backend c)) := by
  have hfaithful : Faithful counting calls s := by
    induction run with
    | opened => exact ⟨fun _ => hstopped, False.elim⟩
    | call run op ih =>
      cases op with
      | start => exact ih.start hB
      | snapshot => exact ih.snapshot hB
      | stop => exact ih.stop hB
  refine ⟨hfaithful.idle, fun hok => ⟨?_, fun hwhole => (hfaithful.whole hwhole).2⟩⟩
  by_contra hrunning
  unfold Session.snapshot at hok
  rw [if_pos (by simpa using hrunning)] at hok
  cases hok

omit hB

/-! ### Two counters -/

/-- Two counters that start and stop whenever they are told to. -/
def steady : Backend (Fin 2 → Bool) (Fin 2) where
  hasConsistentSnapshot _ := false
  start c b := (.ok (), Function.update b c true)
  read _ b := (.ok 7, b)
  stop c b := (.ok (), Function.update b c false)

theorem steady_counts : steady.Counts fun b c => b c = true where
  start c b d := by
    rcases eq_or_ne d c with rfl | hd <;> simp [steady, Except.isOk, Except.toBool, *]
  stop c b d := by
    rcases eq_or_ne d c with rfl | hd <;> simp [steady, Except.isOk, Except.toBool, *]
  read _ _ _ := Iff.rfl

/-- Both counters are counting when the session has been started, and none after it is stopped. -/
theorem running_faithful_pair :
    let opened : Session (Fin 2 → Bool) (Fin 2) :=
      ⟨fun _ => false, [0, 1], [.cpuCycles, .cpuCycles], false⟩
    let s := (opened.start steady).2
    (s.snapshot steady).1.isOk = true ∧ (∀ c ∈ s.counters, s.backend c = true) ∧
      ∀ c ∈ (s.stop steady).2.counters, ¬ (s.stop steady).2.backend c = true := by
  intro opened s
  have hstarted : Runs steady opened _ s := .call .opened .start
  have hstopped : Runs steady opened _ (s.stop steady).2 := .call hstarted .stop
  have hidle : ∀ c ∈ opened.counters, ¬ opened.backend c = true := fun _ _ => Bool.false_ne_true
  exact ⟨rfl, ((running_faithful steady_counts hidle hstarted).2 rfl).2 trivial,
    (running_faithful steady_counts hidle hstopped).1 rfl⟩

/-! ### A counter that cannot be stopped -/

/-- Two counters, of which the second does not start and the first does not stop again. -/
def stuck : Backend (Fin 2 → Bool) (Fin 2) where
  hasConsistentSnapshot _ := false
  start c b := if c = 0 then (.ok (), Function.update b c true)
    else (.error .noCounter, Function.update b c false)
  read _ b := (.ok 7, b)
  stop c b := if b c then (.error .invalidRequest, b) else (.ok (), b)

theorem stuck_counts : stuck.Counts fun b c => b c = true where
  start c b d := by
    rcases eq_or_ne d c with rfl | hd
    · by_cases hzero : d = 0 <;> simp [stuck, hzero, Except.isOk, Except.toBool]
    · simp only [stuck]
      split_ifs <;> simp [hd]
  stop c b d := by
    by_cases hc : b c = true <;> simp [stuck, hc, Except.isOk, Except.toBool]
    rintro hd rfl
    exact hc hd
  read _ _ _ := Iff.rfl

def stuckSession (counters : List (Fin 2)) : Session (Fin 2 → Bool) (Fin 2) :=
  ⟨fun _ => false, counters, counters.map fun _ => .cpuCycles, false⟩

/-- The second counter does not start, and the first cannot be stopped again: the session is
running, and its snapshot has a value for both. -/
theorem snapshot_of_stopped :
    let s := ((stuckSession [0, 1]).start stuck).2
    Runs stuck (stuckSession [0, 1]) [(.start, false)] s ∧ stuck.Counts (fun b c => b c = true) ∧
      (s.snapshot stuck).1.isOk = true ∧ 1 ∈ s.counters ∧ s.backend 1 = false :=
  ⟨.call .opened .start, stuck_counts, rfl, by decide, rfl⟩

end KernelAx.Pmu

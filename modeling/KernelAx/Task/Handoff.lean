import Mathlib.Algebra.Group.Nat.Defs
import KernelAx.Interleaving

/-!
# Tasks — the CPU handoff

While a CPU switches away from a task it still owns the task's stack, so a wake that comes meanwhile
is delegated to it: the waker publishes its reference in `wake_handoff` and flags the owner word,
and the CPU takes the reference when it clears the word. Any number of `publish_wake_handoff`,
`try_mark_running_on_cpu` and `finish_cpu_handoff_exact` calls run here over the three words of one
task, one atomic access at a time. The reference that the call `i` passes is named `i`.

What a call has read may be old by the time it acts, and a reference can be in the slot before its
owner word is flagged, or after the flag is gone; `HandoffLedger` says who is to take it.
-/

namespace KernelAx.Handoff

open Interleaving

/-! ### Owner tokens -/

def cpuOwnerNone : BitVec 64 := 0

def cpuOwnerWakePending : BitVec 64 := 1#64 <<< 63

def cpuOwnerCpuBits : Nat := 16

def cpuOwnerCpuMask : BitVec 64 := (1#64 <<< cpuOwnerCpuBits) - 1

def cpuOwnerGenerationMask : BitVec 64 := (1#64 <<< (64 - 1 - cpuOwnerCpuBits)) - 1

/-- `(generation << CPU_OWNER_CPU_BITS) | cpu_id`. -/
def ownerToken (generation : BitVec 64) (cpuId : BitVec 32) : BitVec 64 :=
  (generation <<< cpuOwnerCpuBits) ||| cpuId.setWidth 64

/-! ### The calls -/

/-- The words of a task that the calls share. -/
structure Words (ι : Type) where
  cpuHandoff : BitVec 64
  cpuHandoffGeneration : BitVec 64
  wakeHandoff : Option ι

def Words.init {ι : Type} : Words ι := ⟨cpuOwnerNone, 0, none⟩

/-- The answers of `publish_wake_handoff`. -/
inductive WakeHandoffPublication (ι : Type)
  | deferred
  | ready (task : ι)
  | occupied (task : ι)
  deriving DecidableEq, Repr

/-- The answers of `finish_cpu_handoff_exact`. -/
inductive CpuHandoffCompletion (ι : Type)
  | cleared
  | wake (task : ι)
  | alreadyCleared
  | missingWake
  | stale
  deriving DecidableEq, Repr

/-- The point a call has reached: the access that comes next, or what it returned. -/
inductive Call (ι : Type)
  | idle
  | publishLoad
  | publishStore (owner : BitVec 64)
  | publishFlag (owner : BitVec 64)
  | publishTake (observed : BitVec 64)
  | published (result : WakeHandoffPublication ι)
  | markLoad (cpuId : BitVec 32)
  | markGeneration (cpuId : BitVec 32)
  | markStore (token : BitVec 64)
  | marked (result : Option (BitVec 64))
  | finishLoad (expected : BitVec 64)
  | finishClear (expected : BitVec 64)
  | finishClearPending (expected : BitVec 64)
  | finishTake
  | finished (result : CpuHandoffCompletion ι)
  deriving DecidableEq, Repr

variable {ι : Type}

/-- `publish_wake_handoff` after its flag was refused with `observed` and it took `slot` back. -/
def retracted (observed : BitVec 64) : Option ι → WakeHandoffPublication ι
  | none => .deferred
  | some task =>
    if observed = cpuOwnerNone ∨ observed &&& cpuOwnerWakePending = 0 then .ready task
    else .occupied task

/-- The next atomic access of the call `i`. -/
def step (i : ι) (s : Words ι) : Call ι → List (Words ι × Call ι)
  | .publishLoad =>
    let owner := s.cpuHandoff
    if owner = cpuOwnerNone then [(s, .published (.ready i))]
    else if owner &&& cpuOwnerWakePending ≠ 0 then [(s, .published (.occupied i))]
    else [(s, .publishStore owner)]
  | .publishStore owner =>
    if s.wakeHandoff = none then [({ s with wakeHandoff := some i }, .publishFlag owner)]
    else [(s, .published (.occupied i))]
  | .publishFlag owner =>
    if s.cpuHandoff = owner then
      [({ s with cpuHandoff := owner ||| cpuOwnerWakePending }, .published .deferred)]
    else [(s, .publishTake s.cpuHandoff)]
  | .publishTake observed =>
    [({ s with wakeHandoff := none }, .published (retracted observed s.wakeHandoff))]
  | .markLoad cpuId =>
    if cpuId.setWidth 64 > cpuOwnerCpuMask then [(s, .marked none)]
    else if s.cpuHandoff ≠ cpuOwnerNone then [(s, .marked none)]
    else [(s, .markGeneration cpuId)]
  | .markGeneration cpuId =>
    -- the mask is below the maximum, so `checked_add` does not refuse before the mask does
    let next := s.cpuHandoffGeneration + 1
    if s.cpuHandoffGeneration.toNat + 1 ≤ cpuOwnerGenerationMask.toNat then
      [({ s with cpuHandoffGeneration := next }, .markStore (ownerToken next cpuId))]
    else [(s, .marked none)]
  | .markStore token =>
    if s.cpuHandoff = cpuOwnerNone then [({ s with cpuHandoff := token }, .marked (some token))]
    else [(s, .marked none)]
  | .finishLoad expected =>
    let observed := s.cpuHandoff
    if expected = cpuOwnerNone then [(s, .finished .alreadyCleared)]
    else if observed = expected then [(s, .finishClear expected)]
    else if observed = expected ||| cpuOwnerWakePending then [(s, .finishClearPending expected)]
    else if observed = cpuOwnerNone then [(s, .finished .alreadyCleared)]
    else [(s, .finished .stale)]
  | .finishClear expected =>
    if s.cpuHandoff = expected then
      [({ s with cpuHandoff := cpuOwnerNone }, .finished .cleared)]
    else [(s, .finishLoad expected)]
  | .finishClearPending expected =>
    if s.cpuHandoff = expected ||| cpuOwnerWakePending then
      [({ s with cpuHandoff := cpuOwnerNone }, .finishTake)]
    else [(s, .finishLoad expected)]
  | .finishTake =>
    let completion := match s.wakeHandoff with
      | none => CpuHandoffCompletion.missingWake
      | some task => .wake task
    [({ s with wakeHandoff := none }, .finished completion)]
  | .idle | .published _ | .marked _ | .finished _ => []

/-- A call can publish, mark for a CPU, or finish with a token that a mark has issued. -/
inductive Starts (c : Config ι (Words ι) (Call ι)) : Call ι → Prop
  | publish : Starts c .publishLoad
  | mark (cpuId : BitVec 32) : Starts c (.markLoad cpuId)
  | finish {i : ι} {token : BitVec 64} (issued : c.calls i = .marked (some token)) :
      Starts c (.finishLoad token)

def system (ι : Type) : System ι (Words ι) (Call ι) where
  idle := .idle
  Starts := Starts
  step := step

/-- A new task, before the first call. -/
def initial : Config ι (Words ι) (Call ι) := ⟨.init, fun _ => .idle⟩

/-! ### Tokens and the flag -/

/-- A word that names an owner and has no wake flag. -/
structure Token (t : BitVec 64) : Prop where
  owned : t ≠ cpuOwnerNone
  plain : t &&& cpuOwnerWakePending = 0

theorem getLsbD_wakePending (i : Nat) : cpuOwnerWakePending.getLsbD i = decide (i = 63) := by
  by_cases h : i = 63
  · subst h
    rfl
  · rw [cpuOwnerWakePending, BitVec.getLsbD_shiftLeft]
    by_cases hlt : i < 63
    · simp [hlt, h]
    · have : ¬ i < 64 := by omega
      simp [this, h]

theorem flagged (t : BitVec 64) : (t ||| cpuOwnerWakePending) &&& cpuOwnerWakePending ≠ 0 := by
  intro h
  have hbit : ((t ||| cpuOwnerWakePending) &&& cpuOwnerWakePending).getLsbD 63 = false := by
    rw [h]
    rfl
  rw [BitVec.getLsbD_and, BitVec.getLsbD_or, getLsbD_wakePending] at hbit
  simp at hbit

theorem Token.top {t : BitVec 64} (h : Token t) : t.getLsbD 63 = false := by
  have hbit : (t &&& cpuOwnerWakePending).getLsbD 63 = false := by
    rw [h.plain]
    rfl
  rw [BitVec.getLsbD_and, getLsbD_wakePending] at hbit
  exact (Bool.and_true _).symm.trans hbit

theorem Token.or_inj {a b : BitVec 64} (ha : Token a) (hb : Token b)
    (h : a ||| cpuOwnerWakePending = b ||| cpuOwnerWakePending) : a = b := by
  refine BitVec.eq_of_getLsbD_eq fun i _ => ?_
  by_cases hi : i = 63
  · rw [hi, ha.top, hb.top]
  · have hbit := congrArg (fun word => word.getLsbD i) h
    simpa only [BitVec.getLsbD_or, getLsbD_wakePending, hi, decide_false, Bool.or_false] using hbit

theorem none_plain : cpuOwnerNone &&& cpuOwnerWakePending = 0 := by decide

variable {generation : BitVec 64} {cpuId : BitVec 32}

theorem ownerToken_toNat (hgeneration : generation.toNat ≤ cpuOwnerGenerationMask.toNat)
    (hcpu : ¬ cpuId.setWidth 64 > cpuOwnerCpuMask) :
    (ownerToken generation cpuId).toNat = generation.toNat * 2 ^ 16 + cpuId.toNat ∧
      cpuId.toNat < 2 ^ 16 := by
  have hmask : cpuOwnerGenerationMask.toNat = 2 ^ 47 - 1 := by decide
  have hcpu' : cpuId.toNat < 2 ^ 16 := by
    have hmask : cpuOwnerCpuMask.toNat = 2 ^ 16 - 1 := by decide
    rw [gt_iff_lt, BitVec.lt_def, BitVec.toNat_setWidth] at hcpu
    omega
  refine ⟨?_, hcpu'⟩
  have hshift : generation.toNat <<< 16 % 2 ^ 64 = generation.toNat <<< 16 := by
    rw [Nat.shiftLeft_eq]
    exact Nat.mod_eq_of_lt (by omega)
  have hwidth : cpuId.toNat % 2 ^ 64 = cpuId.toNat := Nat.mod_eq_of_lt (by omega)
  rw [ownerToken, cpuOwnerCpuBits, BitVec.toNat_or, BitVec.toNat_shiftLeft, hshift,
    BitVec.toNat_setWidth, hwidth, ← Nat.shiftLeft_add_eq_or_of_lt hcpu', Nat.shiftLeft_eq]

/-- The generation in a token. -/
def generationOf (t : BitVec 64) : Nat := t.toNat / 2 ^ 16

theorem generationOf_ownerToken (hgeneration : generation.toNat ≤ cpuOwnerGenerationMask.toNat)
    (hcpu : ¬ cpuId.setWidth 64 > cpuOwnerCpuMask) :
    generationOf (ownerToken generation cpuId) = generation.toNat := by
  obtain ⟨htoken, hcpu⟩ := ownerToken_toNat hgeneration hcpu
  rw [generationOf, htoken]
  omega

theorem token_ownerToken (hpos : 0 < generation.toNat)
    (hgeneration : generation.toNat ≤ cpuOwnerGenerationMask.toNat)
    (hcpu : ¬ cpuId.setWidth 64 > cpuOwnerCpuMask) : Token (ownerToken generation cpuId) := by
  obtain ⟨htoken, hcpu⟩ := ownerToken_toNat hgeneration hcpu
  have hmask : cpuOwnerGenerationMask.toNat = 2 ^ 47 - 1 := by decide
  constructor
  · intro h
    have : (ownerToken generation cpuId).toNat = 0 := by rw [h]; rfl
    omega
  · have htop : (ownerToken generation cpuId).getLsbD 63 = false :=
      Nat.testBit_lt_two_pow (by omega)
    refine BitVec.eq_of_getLsbD_eq fun i _ => ?_
    rw [BitVec.getLsbD_and, getLsbD_wakePending]
    by_cases hi : i = 63
    · subst hi
      rw [htop]
      rfl
    · simp [hi]

end KernelAx.Handoff

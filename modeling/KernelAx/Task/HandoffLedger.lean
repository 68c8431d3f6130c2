import Mathlib.Tactic.SplitIfs
import KernelAx.Task.Handoff

/-!
# Tasks — the ledger of the CPU handoff

Every configuration of a run has a ledger: who will empty the slot and of which reference, which
call returned each reference, and which mark took each generation. The publisher keeps the slot
until its flag is set, then the owner of the CPU word does, then the finish that cleared the flag;
nobody else takes from it.
-/

namespace KernelAx.Handoff

open Interleaving

variable {ι : Type}

/-! ### Where the references are -/

/-- Who will empty the slot, and of which reference: its publisher until the flag is set, then the
owner of the CPU word, then the finish that cleared the flag. -/
inductive Keeper (ι : Type)
  | publisher (task : ι)
  | owner (task : ι)
  | finisher (call task : ι)

def Keeper.task : Keeper ι → ι
  | .publisher task | .owner task | .finisher _ task => task

/-- The auxiliary state: the keeper of the slot, the call that each reference was returned by, and
the mark that took each generation. -/
structure Ledger (ι : Type) where
  keeper : Option (Keeper ι)
  receiver : ι → Option ι
  taker : Nat → Option ι

namespace Ledger

def slot (g : Ledger ι) : Option ι := g.keeper.map Keeper.task

/-- The reference is in the slot or was returned. -/
def Passed (g : Ledger ι) (task : ι) : Prop := g.slot = some task ∨ g.receiver task ≠ none

end Ledger

open Ledger

def Call.returned : Call ι → Option ι
  | .published (.ready task) | .published (.occupied task) | .finished (.wake task) => some task
  | _ => none

/-- A publication whose reference is in the slot and not yet flagged. -/
def Call.Publishing : Call ι → Prop
  | .publishFlag _ | .publishTake _ => True
  | _ => False

/-- A finish that has cleared the flag and not yet taken the reference. -/
def Call.Finishing : Call ι → Prop
  | .finishTake => True
  | _ => False

/-- What a call knows of the words it has read or computed. -/
def Call.Read (g : Ledger ι) (i : ι) : Call ι → Prop
  | .publishStore word | .publishFlag word | .finishLoad word | .finishClear word
  | .finishClearPending word => Token word
  | .markGeneration cpuId => ¬ cpuId.setWidth 64 > cpuOwnerCpuMask
  | .markStore token | .marked (some token) =>
    Token token ∧ g.taker (generationOf token) = some i
  | .finished .missingWake => False
  | _ => True

/-- Where the reference of a call is: away from the slot until it is published. -/
def Call.Reference (g : Ledger ι) (i : ι) : Call ι → Prop
  | .publishFlag _ | .publishTake _ => True
  | .published (.ready task) | .published (.occupied task) => task = i
  | .published .deferred => g.Passed i
  | _ => ¬ g.Passed i

/-- The words of the task are as the ledger says. -/
structure Memory (g : Ledger ι) (s : Words ι) : Prop where
  slot : s.wakeHandoff = g.slot
  flag : s.cpuHandoff &&& cpuOwnerWakePending ≠ 0 ↔ ∃ task, g.keeper = some (.owner task)
  unreturned : ∀ task, g.slot = some task → g.receiver task = none
  generation : s.cpuHandoffGeneration.toNat ≤ cpuOwnerGenerationMask.toNat
  taken : ∀ n i, g.taker n = some i → n ≤ s.cpuHandoffGeneration.toNat

/-- What a call has read and what it still has to do is as the ledger says. -/
structure Point (g : Ledger ι) (i : ι) (k : Call ι) : Prop where
  received : ∀ task, g.receiver task = some i ↔ k.returned = some task
  publishing : g.keeper = some (.publisher i) ↔ k.Publishing
  finishing : (∃ task, g.keeper = some (.finisher i task)) ↔ k.Finishing
  read : k.Read g i
  reference : k.Reference g i

def outline (ι : Type) : Outline ι (Words ι) (Call ι) (Ledger ι) := ⟨Memory, Point⟩

/-- What a change of the ledger must leave alone for the call `j`. -/
structure Frames (g g' : Ledger ι) (j : ι) : Prop where
  receiver : ∀ task, g'.receiver task = some j ↔ g.receiver task = some j
  publisher : g'.keeper = some (.publisher j) ↔ g.keeper = some (.publisher j)
  finisher : ∀ task, g'.keeper = some (.finisher j task) ↔ g.keeper = some (.finisher j task)
  taker : ∀ n, g.taker n = some j → g'.taker n = some j
  passed : g'.Passed j ↔ g.Passed j

theorem Point.frame {g g' : Ledger ι} {j : ι} {k : Call ι} (h : Point g j k)
    (hframe : Frames g g' j) : Point g' j k where
  received task := (hframe.receiver task).trans (h.received task)
  publishing := hframe.publisher.trans h.publishing
  finishing := (exists_congr hframe.finisher).trans h.finishing
  read := by
    have hread := h.read
    unfold Call.Read at hread ⊢
    split at hread <;> first
      | exact hread
      | exact ⟨hread.1, hframe.taker _ hread.2⟩
  reference := by
    have href := h.reference
    unfold Call.Reference at href ⊢
    split at href <;> first
      | exact href
      | exact hframe.passed.mpr href
      | exact mt hframe.passed.mp href

theorem Call.done_of_returned {k : Call ι} {task : ι} (h : k.returned = some task) :
    ¬ k.Publishing ∧ ¬ k.Finishing ∧ ∀ (g : Ledger ι) (i : ι), k.Read g i := by
  unfold Call.returned at h
  split at h
  · exact ⟨fun h => h, fun h => h, fun _ _ => trivial⟩
  · exact ⟨fun h => h, fun h => h, fun _ _ => trivial⟩
  · exact ⟨fun h => h, fun h => h, fun _ _ => trivial⟩
  · cases h

section Moves

variable {g : Ledger ι} {i j : ι} {s : Words ι} {k : Call ι}

theorem follows_same (hm : Memory g s) (hp : Point g i k) : (outline ι).Follows g i s k :=
  ⟨g, hm, hp, fun _ _ _ h => h⟩

theorem follows_keep (keeper : Keeper ι) (hm : Memory { g with keeper := some keeper } s)
    (hp : Point { g with keeper := some keeper } i k)
    (hslot : ∀ j, j ≠ i → (keeper.task = j ↔ g.slot = some j))
    (hothers : ∀ j, j ≠ i → keeper ≠ .publisher j ∧ ∀ task, keeper ≠ .finisher j task)
    (hothers' : ∀ j, j ≠ i → g.keeper ≠ some (.publisher j) ∧
      ∀ task, g.keeper ≠ some (.finisher j task)) :
    (outline ι).Follows g i s k := by
  refine ⟨{ g with keeper := some keeper }, hm, hp, fun j k hj h => h.frame
    ⟨fun _ => Iff.rfl, ?_, fun task => ?_, fun _ h => h, ?_⟩⟩
  · simp [(hothers j hj).1, (hothers' j hj).1]
  · simp [(hothers j hj).2, (hothers' j hj).2]
  · simp [Ledger.Passed, slot, hslot j hj]

variable {s' : Words ι} {k' : Call ι}

theorem act_publishFlag {owner : BitVec 64} (hm : Memory g s)
    (hp : Point g i (.publishFlag owner)) (h : (s', k') ∈ step i s (.publishFlag owner)) :
    (outline ι).Follows g i s' k' := by
  have hkeeper := hp.publishing.mpr trivial
  simp only [step] at h
  split_ifs at h with howner <;> cases List.mem_singleton.mp h
  · refine follows_keep (.owner i) ⟨?_, ?_, ?_, hm.generation, hm.taken⟩
      ⟨hp.received, ?_, ?_, trivial, .inl rfl⟩ (fun j hj => ?_) (fun j hj => ?_) (fun j hj => ?_)
    · rw [hm.slot, slot, hkeeper]
      rfl
    · exact iff_of_true (flagged owner) ⟨i, rfl⟩
    · intro task htask
      exact hm.unreturned task (by rw [slot, hkeeper]; exact htask)
    · simp [Call.Publishing]
    · simp [Call.Finishing]
    · simp [Keeper.task, slot, hkeeper]
    · simp
    · simp [hkeeper, Ne.symm hj]
  · exact follows_same hm { hp with read := trivial, reference := trivial }

theorem act_mark (hm : Memory g s) (hp : Point g i k) {cpuId : BitVec 32}
    (hk : k = .markLoad cpuId ∨ k = .markGeneration cpuId) (h : (s', k') ∈ step i s k) :
    (outline ι).Follows g i s' k' := by
  rcases hk with rfl | rfl
  · simp only [step] at h
    split_ifs at h with hcpu hnone <;> cases List.mem_singleton.mp h
    · exact follows_same hm { hp with read := trivial }
    · exact follows_same hm { hp with read := trivial }
    · exact follows_same hm { hp with read := hcpu }
  · simp only [step] at h
    split_ifs at h with hmask <;> cases List.mem_singleton.mp h
    · have hnext : (s.cpuHandoffGeneration + 1).toNat = s.cpuHandoffGeneration.toNat + 1 := by
        have : cpuOwnerGenerationMask.toNat = 2 ^ 47 - 1 := by decide
        rw [BitVec.toNat_add]
        exact Nat.mod_eq_of_lt (by simp; omega)
      have hgeneration := hnext ▸ hmask
      -- the generation is new, so no other mark has it
      have hfresh : ∀ j, g.taker (s.cpuHandoffGeneration + 1).toNat ≠ some j := by
        intro j hj
        have := hm.taken _ _ hj
        omega
      refine ⟨{ g with taker :=
          Function.update g.taker (s.cpuHandoffGeneration + 1).toNat (some i) },
        ⟨hm.slot, hm.flag, hm.unreturned, hgeneration, fun n j hn => ?_⟩,
        { hp with read := ⟨token_ownerToken (by omega) hgeneration hp.read, ?_⟩ },
        fun j k hj h => h.frame ⟨fun _ => Iff.rfl, Iff.rfl, fun _ => Iff.rfl, fun n hn => ?_,
          Iff.rfl⟩⟩
      · by_cases hne : n = (s.cpuHandoffGeneration + 1).toNat
        · exact Nat.le_of_eq hne
        · have := hm.taken n j ((Function.update_of_ne hne _ _).symm.trans hn)
          dsimp only
          omega
      · rw [generationOf_ownerToken hgeneration hp.read]
        exact Function.update_self ..
      · have hne : n ≠ (s.cpuHandoffGeneration + 1).toNat := by
          rintro rfl
          exact hfresh _ hn
        exact (Function.update_of_ne hne _ _).trans hn
    · exact follows_same hm { hp with read := trivial }

theorem act_markStore {token : BitVec 64} (hm : Memory g s) (hp : Point g i (.markStore token))
    (h : (s', k') ∈ step i s (.markStore token)) : (outline ι).Follows g i s' k' := by
  simp only [step] at h
  split_ifs at h with hnone <;> cases List.mem_singleton.mp h
  · have hflag : ¬ ∃ task, g.keeper = some (.owner task) := by
      rw [← hm.flag, hnone]
      exact not_not.mpr none_plain
    exact follows_same { hm with flag := iff_of_false (not_not.mpr hp.read.1.plain) hflag }
      { hp with read := hp.read }
  · exact follows_same hm { hp with read := trivial }

theorem act_finish {expected : BitVec 64} (hm : Memory g s) (hp : Point g i k)
    (hk : k = .finishLoad expected ∨ k = .finishClear expected ∨ k = .finishClearPending expected)
    (h : (s', k') ∈ step i s k) : (outline ι).Follows g i s' k' := by
  rcases hk with rfl | rfl | rfl
  · simp only [step] at h
    split_ifs at h <;> cases List.mem_singleton.mp h <;> exact follows_same hm
      { hp with read := by first | exact hp.read | trivial }
  · simp only [step] at h
    split_ifs at h with hexpected <;> cases List.mem_singleton.mp h
    · have hflag : ¬ ∃ task, g.keeper = some (.owner task) := by
        rw [← hm.flag, hexpected]
        exact not_not.mpr hp.read.plain
      exact follows_same { hm with flag := iff_of_false (not_not.mpr none_plain) hflag }
        { hp with read := trivial }
    · exact follows_same hm { hp with read := hp.read }
  · simp only [step] at h
    split_ifs at h with hexpected <;> cases List.mem_singleton.mp h
    · obtain ⟨task, hkeeper⟩ := hm.flag.mp (by rw [hexpected]; exact flagged expected)
      have hslot : g.slot = some task := by rw [slot, hkeeper]; rfl
      refine follows_keep (.finisher i task) ⟨hm.slot.trans hslot, ?_, ?_, hm.generation, hm.taken⟩
        ⟨hp.received, ?_, ?_, trivial, ?_⟩ (fun j hj => ?_) (fun j hj => ?_) (fun j hj => ?_)
      · exact iff_of_false (not_not.mpr none_plain) (by simp)
      · intro other hother
        exact hm.unreturned other (hslot.trans hother)
      · simp [Call.Publishing]
      · simp [Call.Finishing]
      · have := hp.reference
        simpa [Call.Reference, Ledger.Passed, slot, hkeeper, Keeper.task] using this
      · simp [hslot, Keeper.task]
      · simp [Ne.symm hj]
      · simp [hkeeper]
    · exact follows_same hm { hp with read := hp.read }

variable [DecidableEq ι]

/-- The reference leaves the slot and `call` returns it. -/
def Ledger.settle (g : Ledger ι) (task call : ι) : Ledger ι where
  keeper := none
  receiver := Function.update g.receiver task (some call)
  taker := g.taker

theorem received_update {task : ι} (hp : Point g i k) (hreturned : k.returned = none)
    (hret : k'.returned = some task) (other : ι) :
    Function.update g.receiver task (some i) other = some i ↔ k'.returned = some other := by
  rw [hret]
  by_cases hother : other = task
  · subst hother
    simp
  · simp [hother, hp.received, hreturned, Ne.symm hother]

theorem received_update_of_ne {task : ι} (hfree : g.receiver task = none) (hj : j ≠ i) (other : ι) :
    Function.update g.receiver task (some i) other = some j ↔ g.receiver other = some j := by
  by_cases hother : other = task <;> simp [hfree, Ne.symm hj, hother]

section

variable (hm : Memory g s)
include hm

theorem follows_return (hp : Point g i k) (hpassed : ¬ g.Passed i)
    (hreturned : k.returned = none) (hpublishing : ¬ k.Publishing) (hfinishing : ¬ k.Finishing)
    (result : WakeHandoffPublication ι) (hresult : result = .ready i ∨ result = .occupied i) :
    (outline ι).Follows g i s (.published result) := by
  simp only [Ledger.Passed, not_or, not_not] at hpassed
  obtain ⟨hslot, hfree⟩ := hpassed
  have hret : (Call.published result).returned = some i := by
    rcases hresult with rfl | rfl <;> rfl
  refine ⟨{ g with receiver := Function.update g.receiver i (some i) }, ⟨hm.slot, hm.flag, ?_,
    hm.generation, hm.taken⟩, ⟨received_update hp hreturned hret, ?_, ?_, trivial, ?_⟩,
    fun j k hj h => h.frame ⟨received_update_of_ne hfree hj, Iff.rfl, fun _ => Iff.rfl,
      fun _ h => h, ?_⟩⟩
  · intro task htask
    have hne : task ≠ i := by
      rintro rfl
      exact hslot htask
    exact (Function.update_of_ne hne _ _).trans (hm.unreturned task htask)
  · exact iff_of_false (mt hp.publishing.mp hpublishing) (fun h => h)
  · exact iff_of_false (mt hp.finishing.mp hfinishing) (fun h => h)
  · rcases hresult with rfl | rfl <;> rfl
  · simp [Ledger.Passed, slot, hj]

theorem follows_take (hp : Point g i k) {keeper : Keeper ι}
    (hkeeper : g.keeper = some keeper) (howner : ∀ task, keeper ≠ .owner task)
    (hothers : ∀ j, j ≠ i → keeper ≠ .publisher j ∧ ∀ task, keeper ≠ .finisher j task)
    (hreturned : k.returned = none) (hret : k'.returned = some keeper.task)
    (hreference : k'.Reference (g.settle keeper.task i) i) :
    (outline ι).Follows g i { s with wakeHandoff := none } k' := by
  have hslot : g.slot = some keeper.task := by rw [slot, hkeeper]; rfl
  have hfree := hm.unreturned _ hslot
  obtain ⟨hpublishing, hfinishing, hread⟩ := Call.done_of_returned hret
  refine ⟨g.settle keeper.task i, ⟨rfl, ?_, fun _ h => (by cases h), hm.generation, hm.taken⟩,
    ⟨received_update hp hreturned hret, iff_of_false (by simp [settle]) hpublishing,
      iff_of_false (by simp [settle]) hfinishing, hread _ _, hreference⟩,
    fun j k hj h => h.frame ⟨received_update_of_ne hfree hj, ?_, fun task => ?_, fun _ h => h, ?_⟩⟩
  · refine hm.flag.trans (iff_of_false ?_ (by simp [settle]))
    rintro ⟨task, htask⟩
    exact howner task (Option.some.inj (hkeeper.symm.trans htask))
  · simp [settle, hkeeper, (hothers j hj).1]
  · simp [settle, hkeeper, (hothers j hj).2]
  · by_cases htask : j = keeper.task
    · simp [Ledger.Passed, settle, hslot, htask]
    · simp [Ledger.Passed, slot, settle, hkeeper, htask, Ne.symm htask]

theorem act_publishLoad (hp : Point g i .publishLoad)
    (h : (s', k') ∈ step i s .publishLoad) : (outline ι).Follows g i s' k' := by
  have hreturn := follows_return hm hp hp.reference rfl (fun h => h) (fun h => h)
  simp only [step] at h
  split_ifs at h with hnone hpending <;> cases List.mem_singleton.mp h
  · exact hreturn _ (.inl rfl)
  · exact hreturn _ (.inr rfl)
  · exact follows_same hm ⟨hp.received, hp.publishing, hp.finishing, ⟨hnone, not_not.mp hpending⟩,
      hp.reference⟩

theorem act_publishStore {owner : BitVec 64}
    (hp : Point g i (.publishStore owner)) (h : (s', k') ∈ step i s (.publishStore owner)) :
    (outline ι).Follows g i s' k' := by
  simp only [step] at h
  split_ifs at h with hfree <;> cases List.mem_singleton.mp h
  · have hpassed := hp.reference
    simp only [Call.Reference, Ledger.Passed, not_or, not_not] at hpassed
    have hkeeper : g.keeper = none := by
      have := hm.slot.symm.trans hfree
      simpa [slot] using this
    refine follows_keep (.publisher i) ⟨rfl, hm.flag.trans ?_, ?_, hm.generation, hm.taken⟩
      ⟨hp.received, ?_, ?_, hp.read, trivial⟩ (fun j hj => ?_) (fun j hj => ?_) (fun j hj => ?_)
    · simp [hkeeper]
    · intro task htask
      obtain rfl : i = task := by simpa [slot, Keeper.task] using htask
      exact hpassed.2
    · simp [Call.Publishing]
    · simp [Call.Finishing]
    · simp [Keeper.task, slot, hkeeper, Ne.symm hj]
    · simp [Ne.symm hj]
    · simp [hkeeper]
  · exact follows_return hm hp hp.reference rfl (fun h => h) (fun h => h) _ (.inr rfl)

theorem act_publishTake {observed : BitVec 64}
    (hp : Point g i (.publishTake observed)) (h : (s', k') ∈ step i s (.publishTake observed)) :
    (outline ι).Follows g i s' k' := by
  have hkeeper := hp.publishing.mpr trivial
  have hslot : s.wakeHandoff = some i := by rw [hm.slot, slot, hkeeper]; rfl
  simp only [step, hslot, retracted] at h
  split_ifs at h <;> cases List.mem_singleton.mp h
  all_goals
    exact follows_take hm hp hkeeper (fun _ h => by cases h) (fun j hj => ⟨by simp [Ne.symm hj],
      fun _ h => by cases h⟩) rfl rfl rfl

theorem act_finishTake (hp : Point g i .finishTake)
    (h : (s', k') ∈ step i s .finishTake) : (outline ι).Follows g i s' k' := by
  obtain ⟨task, hkeeper⟩ := hp.finishing.mpr trivial
  have hslot : s.wakeHandoff = some task := by rw [hm.slot, slot, hkeeper]; rfl
  have hpassed := hp.reference
  simp only [Call.Reference, Ledger.Passed, slot, hkeeper, Option.map_some, Keeper.task,
    Option.some.injEq, not_or, not_not] at hpassed
  simp only [step, hslot] at h
  cases List.mem_singleton.mp h
  refine follows_take hm hp hkeeper (fun _ h => by cases h) (fun j hj =>
    ⟨by simp, by simp [Ne.symm hj]⟩) rfl rfl ?_
  simp [Call.Reference, Ledger.Passed, slot, settle, Keeper.task, hpassed.2,
    Ne.symm hpassed.1]

end

end Moves

/-! ### Runs -/

section Runs

variable {c : Config ι (Words ι) (Call ι)} {g : Ledger ι}

theorem initial_holds : (outline ι).Holds ⟨none, fun _ => none, fun _ => none⟩ initial := by
  refine ⟨⟨rfl, ?_, fun _ h => (by cases h), ?_, fun _ _ h => (by cases h)⟩, fun i =>
    ⟨fun task => ?_, ?_, ?_, trivial, ?_⟩⟩
  · exact iff_of_false (not_not.mpr none_plain) (by simp)
  · exact Nat.zero_le _
  · simp [initial, Call.returned]
  · simp [initial, Call.Publishing]
  · simp [initial, Call.Finishing]
  · simp [initial, Call.Reference, Ledger.Passed, slot]

variable [DecidableEq ι]

theorem outline_stable : (outline ι).Stable (system ι) where
  call := by
    rintro g i c k ⟨hm, hp⟩ hidle hstarts
    have hidle := hidle ▸ hp i
    cases hstarts with
    | publish | mark cpuId => exact follows_same hm { hidle with read := trivial }
    | @finish j token issued =>
      exact follows_same hm { hidle with read := (issued ▸ hp j).read.1 }
  act := by
    intro g i s s' k k' hm hp h
    cases k with
    | publishLoad => exact act_publishLoad hm hp h
    | publishStore owner => exact act_publishStore hm hp h
    | publishFlag owner => exact act_publishFlag hm hp h
    | publishTake observed => exact act_publishTake hm hp h
    | markLoad cpuId => exact act_mark hm hp (.inl rfl) h
    | markGeneration cpuId => exact act_mark hm hp (.inr rfl) h
    | markStore token => exact act_markStore hm hp h
    | finishLoad expected => exact act_finish hm hp (.inl rfl) h
    | finishClear expected => exact act_finish hm hp (.inr (.inl rfl)) h
    | finishClearPending expected => exact act_finish hm hp (.inr (.inr rfl)) h
    | finishTake => exact act_finishTake hm hp h
    | idle | published _ | marked _ | finished _ => cases h

/-- **Every configuration of a run has a ledger.** -/
theorem exists_ledger (h : (system ι).Run initial c) : ∃ g, (outline ι).Holds g c :=
  outline_stable.run h ⟨_, initial_holds⟩

end Runs

end KernelAx.Handoff

import KernelAx.X86.Decode

/-!
# X86 — Run

Execution: fetch, decode, execute. `Run code ok s s'` is a run of `code` from `s` to `s'` whose
memory accesses all satisfy `ok`; `Leads code ok s Q` says that such a run reaches a state with
`Q`. A step is a function of the state, so a run that leaves the code is *the* execution.
-/

namespace KernelAx.X86

/-- One step, with the accesses it makes; `none` outside of the code and on a fault. -/
def step (code : List Byte) (s : State) : Option (State × List Access) :=
  match s.ip with
  | .outside _ => none
  | .code p =>
    match decode p (code.drop p) with
    | none => none
    | some (i, next) => (exec i next s).map fun s' => (s', accesses i s)

/-- Any number of steps, each with accesses that are allowed. -/
inductive Run (code : List Byte) (ok : Access → Prop) : State → State → Prop where
  | refl (s : State) : Run code ok s s
  | more {s s₁ s' : State} {t : List Access} (h : step code s = some (s₁, t))
      (ht : ∀ a ∈ t, ok a) (r : Run code ok s₁ s') : Run code ok s s'

variable {code : List Byte} {ok : Access → Prop} {s s₁ s₂ s' : State}

theorem Run.trans (h₁ : Run code ok s s₁) (h₂ : Run code ok s₁ s') : Run code ok s s' := by
  induction h₁ with
  | refl => exact h₂
  | more h ht _ ih => exact .more h ht (ih h₂)

/-- The state after `n` steps and the accesses on the way. -/
def runFor (code : List Byte) : Nat → State → Option (State × List Access)
  | 0, s => some (s, [])
  | n + 1, s =>
    match step code s with
    | none => none
    | some (s₁, t) => (runFor code n s₁).map fun (s', t') => (s', t ++ t')

/-! ### Symbolic execution -/

/-- The instruction at offset `p` of the code is `i`, and `next` is the offset behind it. -/
def At (code : List Byte) (p : Nat) (i : Instr) (next : Nat) : Prop :=
  decode p (code.drop p) = some (i, next)

/-- Execution from `s` reaches a state with `Q` on allowed accesses only. -/
def Leads (code : List Byte) (ok : Access → Prop) (s : State) (Q : State → Prop) : Prop :=
  ∃ s', Run code ok s s' ∧ Q s'

variable {Q R : State → Prop}

theorem Leads.here (h : Q s) : Leads code ok s Q := ⟨s, .refl s, h⟩

theorem Leads.trans (h : Leads code ok s Q) (hQ : ∀ s', Q s' → Leads code ok s' R) :
    Leads code ok s R := by
  obtain ⟨s₁, r₁, hq⟩ := h
  obtain ⟨s₂, r₂, hr⟩ := hQ s₁ hq
  exact ⟨s₂, r₁.trans r₂, hr⟩

/-- **Symbolic execution of one instruction.** -/
theorem Leads.step {p next : Nat} {i : Instr} (hp : s.ip = .code p) (hi : At code p i next)
    (he : exec i next s = some s₁) (ha : ∀ a ∈ accesses i s, ok a)
    (h : Leads code ok s₁ Q) : Leads code ok s Q := by
  obtain ⟨s', r, hq⟩ := h
  refine ⟨s', .more (t := accesses i s) ?_ ha r, hq⟩
  unfold At at hi
  simp only [X86.step, hp, hi, he, Option.map_some]

end KernelAx.X86

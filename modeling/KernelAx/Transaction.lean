import Mathlib.Order.Defs.Unbundled

/-!
# Transactions — operations that fail halfway

An operation runs on a state and returns, fails with an error, or panics. A failure keeps what
was written before it: nothing is rolled back that the operation does not roll back itself. A panic
ends the run.

`Post` is the postcondition of an operation, one part for its return and one for its failure. The
rules below are equivalences, so that rewriting with them walks through every path of an operation.
-/

namespace KernelAx

variable {α β ε : Type}

theorem bind_eq_ok {x : Except ε α} {f : α → Except ε β} {b : β} :
    (x >>= f) = .ok b ↔ ∃ a, x = .ok a ∧ f a = .ok b := by
  cases x with
  | error e | ok a => simp [bind, Except.bind]

theorem ok_bind (a : α) (f : α → Except ε β) : (Except.ok a >>= f) = f a := rfl

theorem error_bind (e : ε) (f : α → Except ε β) : (Except.error e >>= f) = .error e := rfl

theorem mapError_eq_ok {ε' : Type} {f : ε → ε'} {x : Except ε α} {a : α} :
    x.mapError f = .ok a ↔ x = .ok a := by
  cases x with
  | error e => exact ⟨nofun, nofun⟩
  | ok b => exact ⟨fun h => congrArg _ (Except.ok.inj h), fun h => congrArg _ (Except.ok.inj h)⟩

namespace Transaction

/-- What an operation did: it returned, it failed with what it had written, or it panicked. -/
inductive Outcome (ε σ α : Type)
  | ok (value : α) (state : σ)
  | error (kind : ε) (state : σ)
  | panic
  deriving DecidableEq, Repr

/-- An operation on the state `σ` that may fail with an `ε`. -/
def Op (ε σ α : Type) : Type := σ → Outcome ε σ α

variable {ε σ τ α β : Type}

namespace Op

protected def bind (m : Op ε σ α) (f : α → Op ε σ β) : Op ε σ β := fun s =>
  match m s with
  | .ok a s' => f a s'
  | .error e s' => .error e s'
  | .panic => .panic

instance : Monad (Op ε σ) where
  pure a := fun s => .ok a s
  bind := Op.bind

def read (f : σ → α) : Op ε σ α := fun s => .ok (f s) s

def modify (f : σ → σ) : Op ε σ Unit := fun s => .ok () (f s)

def fail (e : ε) : Op ε σ α := fun s => .error e s

def crash : Op ε σ α := fun _ => .panic

/-- Fails with `e` unless `c` holds. -/
def require (c : Prop) [Decidable c] (e : ε) : Op ε σ Unit := if c then pure () else fail e

/-- Runs the operation if `c` holds. -/
def when (c : Prop) [Decidable c] (m : Op ε σ Unit) : Op ε σ Unit := if c then m else pure ()

def lift : Except ε α → Op ε σ α
  | .ok a => pure a
  | .error e => fail e

/-- Hands a failure to the caller, as a value. -/
def attempt (m : Op ε σ α) : Op ε σ (Except ε α) := fun s =>
  match m s with
  | .ok a s' => .ok (.ok a) s'
  | .error e s' => .ok (.error e) s'
  | .panic => .panic

def expect (m : Op ε σ α) : Op ε σ α := fun s =>
  match m s with
  | .ok a s' => .ok a s'
  | .error _ _ => .panic
  | .panic => .panic

/-- An operation on a part of the state. -/
def focus (part : σ → τ) (put : τ → σ → σ) (m : Op ε τ α) : Op ε σ α := fun s =>
  match m (part s) with
  | .ok a p => .ok a (put p s)
  | .error e p => .error e (put p s)
  | .panic => .panic

/-- The same operation with another error. -/
def mapError {ε' : Type} (f : ε → ε') (m : Op ε σ α) : Op ε' σ α := fun s =>
  match m s with
  | .ok a s' => .ok a s'
  | .error e s' => .error (f e) s'
  | .panic => .panic

/-- Computes the next state first and writes it once nothing can fail. -/
def staged (f : σ → Except ε σ) : Op ε σ Unit := fun s =>
  match f s with
  | .ok s' => .ok () s'
  | .error e => .error e s

variable {f : σ → Except ε σ} {s : σ}

theorem staged_ok {s' : σ} (h : f s = .ok s') : staged f s = .ok () s' := by
  rw [staged, h]

theorem staged_error {e : ε} (h : f s = .error e) : staged f s = .error e s := by
  rw [staged, h]

theorem staged_eq_ok {s' : σ} {a : Unit} : staged f s = .ok a s' ↔ f s = .ok s' := by
  unfold staged
  cases f s <;> simp

/-- A failure leaves the state as it was. -/
theorem state_of_staged_error {s' : σ} {e : ε} (h : staged f s = .error e s') : s' = s := by
  cases hf : f s with
  | ok t =>
    rw [staged_ok hf] at h
    cases h
  | error e' =>
    rw [staged_error hf] at h
    cases h
    rfl

end Op

open Op

/-- `Q` holds when the operation returns and `E` when it fails. -/
def Post (m : Op ε σ α) (s : σ) (Q : α → σ → Prop) (E : ε → σ → Prop) : Prop :=
  match m s with
  | .ok a s' => Q a s'
  | .error e s' => E e s'
  | .panic => True

variable {m : Op ε σ α} {s : σ} {Q : α → σ → Prop} {E : ε → σ → Prop}

theorem Post.mono {Q' : α → σ → Prop} {E' : ε → σ → Prop} (h : Post m s Q E)
    (hQ : ∀ a s', Q a s' → Q' a s') (hE : ∀ e s', E e s' → E' e s') : Post m s Q' E' := by
  unfold Post at *
  cases hm : m s with
  | ok a s' => rw [hm] at h; exact hQ a s' h
  | error e s' => rw [hm] at h; exact hE e s' h
  | panic => trivial

variable {a : α} {s' : σ} {e : ε} {f : α → Op ε σ β} {c : Prop}

theorem Post.of_ok (h : Post m s Q E) (hm : m s = .ok a s') : Q a s' := by
  rw [Post, hm] at h
  exact h

theorem Post.of_error (h : Post m s Q E) (hm : m s = .error e s') : E e s' := by
  rw [Post, hm] at h
  exact h

theorem post_iff : Post m s Q E ↔
    (∀ a s', m s = .ok a s' → Q a s') ∧ ∀ e s', m s = .error e s' → E e s' := by
  unfold Post
  cases m s <;> simp

theorem post_bind {Q : β → σ → Prop} :
    Post (m >>= f) s Q E ↔ Post m s (fun a s' => Post (f a) s' Q E) E := by
  show Post (Op.bind m f) s Q E ↔ _
  unfold Post Op.bind
  cases m s <;> rfl

theorem post_pure : Post (pure a) s Q E ↔ Q a s := Iff.rfl

theorem post_read {f : σ → α} : Post (read f) s Q E ↔ Q (f s) s := Iff.rfl

theorem post_modify {f : σ → σ} {Q : Unit → σ → Prop} :
    Post (modify f) s Q E ↔ Q () (f s) := Iff.rfl

theorem post_fail : Post (fail e) s Q E ↔ E e s := Iff.rfl

theorem post_ite [Decidable c] {n : Op ε σ α} :
    Post (if c then m else n) s Q E ↔ (c → Post m s Q E) ∧ (¬ c → Post n s Q E) := by
  split <;> simp [*]

theorem post_require [Decidable c] {Q : Unit → σ → Prop} :
    Post (require c e) s Q E ↔ (c → Q () s) ∧ (¬ c → E e s) := by
  unfold require
  rw [post_ite]
  exact Iff.rfl

theorem post_lift {x : Except ε α} :
    Post (lift x) s Q E ↔ (∀ a, x = .ok a → Q a s) ∧ ∀ e, x = .error e → E e s := by
  cases x with
  | ok a => simp [lift, post_pure]
  | error e => simp [lift, post_fail]

theorem post_expect : Post (expect m) s Q E ↔ Post m s Q fun _ _ => True := by
  unfold Post expect
  cases m s <;> rfl

theorem post_focus {part : σ → τ} {put : τ → σ → σ} {m : Op ε τ α} :
    Post (focus part put m) s Q E
      ↔ Post m (part s) (fun a p => Q a (put p s)) (fun e p => E e (put p s)) := by
  unfold Post focus
  cases m (part s) <;> rfl

/-! ### Evaluation -/

/-- The operation returns, with `Q` of what it returns and of the state it leaves. -/
def Returns (m : Op ε σ α) (s : σ) (Q : α → σ → Prop) : Prop :=
  match m s with
  | .ok a s' => Q a s'
  | .error _ _ | .panic => False

theorem Returns.exists (h : Returns m s Q) : ∃ a s', m s = .ok a s' ∧ Q a s' := by
  unfold Returns at h
  split at h
  · next a s' he => exact ⟨a, s', he, h⟩
  · exact h.elim
  · exact h.elim

theorem Returns.intro (hm : m s = .ok a s') (h : Q a s') : Returns m s Q := by
  rw [Returns, hm]
  exact h

theorem Returns.mono {Q' : α → σ → Prop} (h : Returns m s Q) (hQ : ∀ a s', Q a s' → Q' a s') :
    Returns m s Q' := by
  obtain ⟨a, s', hm, h⟩ := h.exists
  exact .intro hm (hQ a s' h)

theorem bind_of_ok (hm : m s = .ok a s') : (m >>= f) s = f a s' := by
  show Op.bind m f s = _
  rw [Op.bind, hm]

theorem bind_of_error (hm : m s = .error e s') : (m >>= f) s = .error e s' := by
  show Op.bind m f s = _
  rw [Op.bind, hm]

theorem require_of [Decidable c] (hc : c) : require c e s = .ok () s := by
  rw [require, if_pos hc]
  rfl

theorem require_of_not [Decidable c] (hc : ¬ c) : (require c e : Op ε σ Unit) s = .error e s := by
  rw [require, if_neg hc]
  rfl

theorem Returns.after {P : β → σ → Prop} (hm : m s = .ok a s') (h : Returns (f a) s' P) :
    Returns (m >>= f) s P := by
  rw [Returns, bind_of_ok hm]
  exact h

/-- What comes first returns, and what comes next returns from there. -/
theorem Returns.bind {P : β → σ → Prop} (h : Returns m s Q)
    (hf : ∀ a s', Q a s' → Returns (f a) s' P) : Returns (m >>= f) s P := by
  obtain ⟨a, s', hm, h⟩ := h.exists
  exact .after hm (hf a s' h)

end Transaction

end KernelAx

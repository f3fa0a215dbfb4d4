/-!
# `Narrative.Attempt` — results that come with the state they leave

An operation that fails may have changed something before it failed. Its outcome is therefore a pair:
what came of it, and the state afterwards.

## Contents
- **The type.** `Attempt σ ε α`.
- **Combination.** `andThen` goes on after a success, `mapError` renames errors, `within` sees the state
  as part of a larger one, and `forEach` runs an operation over a list up to the first failure.
-/

namespace Narrative

/-- What came of an operation, and the state that it left. -/
structure Attempt (σ ε α : Type) where
  result : Except ε α
  state : σ

namespace Attempt

variable {σ τ ε ε' α β : Type}

/-- A success. -/
def ok (a : α) (s : σ) : Attempt σ ε α := ⟨.ok a, s⟩

/-- A failure. -/
def error (e : ε) (s : σ) : Attempt σ ε α := ⟨.error e, s⟩

/-- An operation that either gives a new state or leaves the old one. -/
def ofExcept (s : σ) : Except ε σ → Attempt σ ε Unit
  | .ok s' => ok () s'
  | .error e => error e s

/-- Goes on with `f` after a success. -/
def andThen (x : Attempt σ ε α) (f : α → σ → Attempt σ ε β) : Attempt σ ε β :=
  match x.result with
  | .ok a => f a x.state
  | .error e => error e x.state

@[simp] theorem andThen_ok (a : α) (s : σ) (f : α → σ → Attempt σ ε β) : (ok a s).andThen f = f a s :=
  rfl

@[simp] theorem andThen_error (e : ε) (s : σ) (f : α → σ → Attempt σ ε β) :
    (error e s : Attempt σ ε α).andThen f = error e s := rfl

theorem andThen_assoc {γ : Type} (x : Attempt σ ε α) (f : α → σ → Attempt σ ε β)
    (g : β → σ → Attempt σ ε γ) :
    (x.andThen f).andThen g = x.andThen fun a s => (f a s).andThen g := by
  obtain ⟨r, s⟩ := x
  cases r with
  | error e => rfl
  | ok a => rfl

/-- Renames the error. -/
def mapError (f : ε → ε') (x : Attempt σ ε α) : Attempt σ ε' α := ⟨x.result.mapError f, x.state⟩

/-- Sees the state as part of a larger one. -/
def within (f : σ → τ) (x : Attempt σ ε α) : Attempt τ ε α := ⟨x.result, f x.state⟩

/-- Runs `f` on every member of a list, from left to right, up to the first failure. -/
def forEach (f : α → σ → Attempt σ ε Unit) : List α → σ → Attempt σ ε Unit
  | [], s => ok () s
  | a :: as, s => (f a s).andThen fun _ s' => forEach f as s'

end Attempt

end Narrative

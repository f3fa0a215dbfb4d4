import Mathlib.Data.List.Forall2
import Narrative.Attempt

/-!
# `Proofs.Pairing` — two runs side by side

To compare two runs of one operation from different states, every fallible piece of it is run twice: both
runs fail with one error, or both succeed with related results. Attempts leave states behind, too; they
answer the same and leave related states. Both notions go through every way in which pieces are put
together, so a comparison of two runs follows the text of the operation.

## Contents
- **Optional values.** `rel_cases`, `rel_map`, `rel_eq`.
- **Results.** `Outcome.Paired`, through `bind`, `map`, `mapError`, guards and `mapM`.
- **Attempts.** `Attempt.Paired`, through `andThen`, `mapError`, `within`, `ofExcept` and `forEach`.
-/

namespace Narrative

variable {ε ε' σ τ σ' τ' α β γ δ : Type}

namespace Outcome

/-! ## Optional values -/

theorem rel_cases {R : α → β → Prop} {x : Option α} {y : Option β} (h : Option.Rel R x y) :
    (x = none ∧ y = none) ∨ ∃ a b, x = some a ∧ y = some b ∧ R a b := by
  cases h with
  | none => exact .inl ⟨rfl, rfl⟩
  | some h => exact .inr ⟨_, _, rfl, rfl, h⟩

theorem rel_map {R : α → β → Prop} {S : γ → δ → Prop} {x : Option α} {y : Option β} {f : α → γ}
    {g : β → δ} (h : Option.Rel R x y) (hf : ∀ a b, R a b → S (f a) (g b)) :
    Option.Rel S (x.map f) (y.map g) := by
  cases h with
  | none => exact .none
  | some h => exact .some (hf _ _ h)

theorem rel_eq {x y : Option α} : Option.Rel (· = ·) x y ↔ x = y := by
  constructor
  · intro h
    cases h with
    | none => rfl
    | some h => rw [h]
  · intro h
    subst h
    cases x with
    | none => exact .none
    | some a => exact .some rfl

/-! ## Results -/

/-- Two results are **paired** if they are the same error, or successes with related values. -/
inductive Paired (R : α → β → Prop) : Except ε α → Except ε β → Prop where
  | ok {a : α} {b : β} (h : R a b) : Paired R (.ok a) (.ok b)
  | error (e : ε) : Paired R (.error e) (.error e)

variable {R : α → β → Prop} {S : γ → δ → Prop} {x : Except ε α} {y : Except ε β}

theorem Paired.bind {f : α → Except ε γ} {g : β → Except ε δ} (h : Paired R x y)
    (hf : ∀ a b, R a b → Paired S (f a) (g b)) : Paired S (x >>= f) (y >>= g) := by
  cases h with
  | ok h => exact hf _ _ h
  | error e => exact .error e

theorem Paired.map {f : α → γ} {g : β → δ} (h : Paired R x y) (hf : ∀ a b, R a b → S (f a) (g b)) :
    Paired S (x.map f) (y.map g) := by
  cases h with
  | ok h => exact .ok (hf _ _ h)
  | error e => exact .error e

/-- One result may lead on in two ways. -/
theorem paired_bind {f : α → Except ε γ} {g : α → Except ε δ}
    (hf : ∀ a, x = .ok a → Paired S (f a) (g a)) :
    Paired S (x >>= f) (x >>= g) := by
  cases x with
  | ok a => exact hf a rfl
  | error e => exact .error e

/-- One result may be taken in two ways. -/
theorem paired_map {f : α → γ} {g : α → δ} (hf : ∀ a, x = .ok a → S (f a) (g a)) :
    Paired S (x.map f) (x.map g) := by
  cases x with
  | ok a => exact .ok (hf a rfl)
  | error e => exact .error e

theorem Paired.mapError (h : Paired R x y) (f : ε → ε') : Paired R (x.mapError f) (y.mapError f) := by
  cases h with
  | ok h => exact .ok h
  | error e => exact .error (f e)

/-- Related values that lead on to the same result make no difference. -/
theorem Paired.bind_eq {f : α → Except ε γ} {g : β → Except ε γ} (h : Paired R x y)
    (hf : ∀ a b, R a b → f a = g b) :
    x >>= f = y >>= g := by
  cases h with
  | ok h => exact hf _ _ h
  | error e => rfl

/-- A check that is made twice is passed twice or not at all. -/
theorem paired_guard {c : Prop} [Decidable c] {e : ε} {f : Unit → Except ε γ} {g : Unit → Except ε δ}
    (h : ¬c → Paired S (f ()) (g ())) :
    Paired S (if c then throw e >>= f else f ()) (if c then throw e >>= g else g ()) := by
  by_cases hc : c
  · rw [if_pos hc, if_pos hc]
    exact .error e
  · rw [if_neg hc, if_neg hc]
    exact h hc

/-- Traversals of one list are paired if they are at every member. -/
theorem paired_mapM {f : γ → Except ε α} {g : γ → Except ε β} {l : List γ}
    (h : ∀ c ∈ l, Paired R (f c) (g c)) :
    Paired (List.Forall₂ R) (l.mapM f) (l.mapM g) := by
  induction l with
  | nil => exact .ok .nil
  | cons c l ih =>
    rw [List.mapM_cons, List.mapM_cons]
    refine (h c List.mem_cons_self).bind fun a b hab => ?_
    refine (ih fun c' hc' => h c' (List.mem_cons_of_mem _ hc')).bind fun as bs hrest => ?_
    exact .ok (.cons hab hrest)

end Outcome

/-! ## Attempts -/

namespace Attempt
open Outcome

/-- Two attempts are **paired** if they have the same result and leave related states. -/
structure Paired (R : σ → τ → Prop) (x : Attempt σ ε α) (y : Attempt τ ε α) : Prop where
  result : x.result = y.result
  state : R x.state y.state

variable {R : σ → τ → Prop} {x : Attempt σ ε α} {y : Attempt τ ε α} {s : σ} {t : τ}

theorem paired_ok (a : α) (h : R s t) : Paired R (.ok a s : Attempt σ ε α) (.ok a t) := ⟨rfl, h⟩

theorem paired_error (e : ε) (h : R s t) : Paired R (.error e s : Attempt σ ε α) (.error e t) := ⟨rfl, h⟩

theorem Paired.andThen {f : α → σ → Attempt σ ε β} {g : α → τ → Attempt τ ε β} (h : Paired R x y)
    (hf : ∀ a s t, R s t → Paired R (f a s) (g a t)) : Paired R (x.andThen f) (y.andThen g) := by
  obtain ⟨rx, s⟩ := x
  obtain ⟨ry, t⟩ := y
  obtain ⟨hresult, hstate⟩ := h
  change rx = ry at hresult
  subst hresult
  cases rx with
  | ok a => exact hf a s t hstate
  | error e => exact paired_error e hstate

theorem Paired.mapError (h : Paired R x y) (f : ε → ε') : Paired R (x.mapError f) (y.mapError f) :=
  ⟨congrArg (Except.mapError f) h.result, h.state⟩

theorem Paired.within {S : σ' → τ' → Prop} {f : σ → σ'} {g : τ → τ'} (h : Paired R x y)
    (hf : ∀ s t, R s t → S (f s) (g t)) : Paired S (x.within f) (y.within g) :=
  ⟨h.result, hf _ _ h.state⟩

theorem paired_ofExcept {x : Except ε σ} {y : Except ε τ} (hs : R s t) (h : Outcome.Paired R x y) :
    Paired R (ofExcept s x) (ofExcept t y) := by
  cases h with
  | ok h => exact paired_ok () h
  | error e => exact paired_error e hs

/-- Attempts over one list are paired if they are at every member, from wherever they have got to. -/
theorem paired_forEach {f : α → σ → Attempt σ ε Unit} {g : α → τ → Attempt τ ε Unit} {l : List α}
    (hf : ∀ a ∈ l, ∀ s t, R s t → Paired R (f a s) (g a t)) (hs : R s t) :
    Paired R (forEach f l s) (forEach g l t) := by
  induction l generalizing s t with
  | nil => exact paired_ok () hs
  | cons a l ih =>
    refine (hf a List.mem_cons_self s t hs).andThen fun _ s' t' hs' => ?_
    exact ih (fun a' ha' => hf a' (List.mem_cons_of_mem _ ha')) hs'

end Attempt

end Narrative

import Narrative.Evaluation

/-!
# `Proofs.Outcome` — what the success of a chain of fallible steps says

Most operations are chains of checks in `Except`, or attempts that leave a state behind. A proof about
one of them starts by taking the chain apart: it succeeded exactly when every link did.

## Contents
- **Results.** `error_iff` and `not_some_and_iff` say what a failure is.
- **Chains.** `bind_eq_ok`, `bind_succeeds`, `map_eq_ok`, `mapError_eq_ok`, `guard_eq_ok`;
  `bind_eq_error`.
- **Lists.** `forM_eq_ok`; `foldlM` through `foldlM_keeps`, `foldlM_succeeds`, `foldlM_error`,
  `foldlM_agree`, and `mapM` through `mapM_mem`, `mapM_succeeds`, `mapM_error_iff`, `mapM_flatten`,
  `mapM_agree`.
- **Attempts.** What `andThen` and `within` do to result and state; `forEach_keeps` and `recordAll_keeps`
  for attempts that run over a list and may stop anywhere.
-/

namespace Narrative
namespace Outcome

variable {ε ε' σ τ α β γ : Type}

/-! ## Results -/

/-- A result is an error exactly when it is not a success. -/
theorem error_iff {x : Except ε α} : (∃ e, x = .error e) ↔ ¬∃ a, x = .ok a := by
  cases x with
  | error e => exact iff_of_true ⟨e, rfl⟩ fun ⟨_, h⟩ => nomatch h
  | ok a => exact iff_of_false (fun ⟨_, h⟩ => nomatch h) fun hnot => hnot ⟨a, rfl⟩

/-- What is looked up falls short if it is not there, or is there and is not as it should be. -/
theorem not_some_and_iff {o : Option α} {P : α → Prop} :
    (¬∃ a, o = some a ∧ P a) ↔ o = none ∨ ∃ a, o = some a ∧ ¬P a := by
  cases o with
  | none => exact iff_of_true (fun ⟨_, h, _⟩ => nomatch h) (.inl rfl)
  | some a => simp

/-! ## Chains -/

/-- A chain succeeds exactly when its first link does and the rest goes on from there. -/
theorem bind_eq_ok {x : Except ε α} {f : α → Except ε β} {b : β} :
    x >>= f = .ok b ↔ ∃ a, x = .ok a ∧ f a = .ok b := by
  cases x with
  | error e => exact ⟨fun h => (nomatch h), fun ⟨_, h, _⟩ => (nomatch h)⟩
  | ok a => exact ⟨fun h => ⟨a, rfl, h⟩, fun ⟨_, ha, h⟩ => by cases ha; exact h⟩

theorem map_eq_ok {x : Except ε α} {f : α → β} {b : β} :
    x.map f = .ok b ↔ ∃ a, x = .ok a ∧ f a = b := by
  cases x with
  | error e => exact ⟨fun h => (nomatch h), fun ⟨_, h, _⟩ => (nomatch h)⟩
  | ok a => exact ⟨fun h => ⟨a, rfl, Except.ok.inj h⟩, fun ⟨_, ha, h⟩ => by cases ha; exact congrArg _ h⟩

theorem map_eq_error {x : Except ε α} {f : α → β} {e : ε} : x.map f = .error e ↔ x = .error e := by
  cases x with
  | error e' =>
    exact ⟨fun h => congrArg _ (Except.error.inj h), fun h => congrArg _ (Except.error.inj h)⟩
  | ok a => exact ⟨fun h => (nomatch h), fun h => (nomatch h)⟩

theorem mapError_eq_ok {x : Except ε α} {f : ε → ε'} {a : α} : x.mapError f = .ok a ↔ x = .ok a := by
  cases x with
  | error e => exact ⟨fun h => (nomatch h), fun h => (nomatch h)⟩
  | ok a' => exact ⟨fun h => congrArg _ (Except.ok.inj h), fun h => congrArg _ (Except.ok.inj h)⟩

/-- A chain succeeds if its first link does and the rest succeeds from wherever that leads. -/
theorem bind_succeeds {x : Except ε α} {f : α → Except ε β} (hx : ∃ a, x = .ok a)
    (hf : ∀ a, x = .ok a → ∃ b, f a = .ok b) : ∃ b, x >>= f = .ok b := by
  obtain ⟨a, ha⟩ := hx
  obtain ⟨b, hb⟩ := hf a ha
  exact ⟨b, bind_eq_ok.mpr ⟨a, ha, hb⟩⟩

/-- A chain fails exactly when its first link does, or the rest does from where that leads. -/
theorem bind_eq_error {x : Except ε α} {f : α → Except ε β} {e : ε} :
    x >>= f = .error e ↔ x = .error e ∨ ∃ a, x = .ok a ∧ f a = .error e := by
  cases x with
  | error e' =>
    exact ⟨fun h => .inl (congrArg _ (Except.error.inj h)),
      fun h => h.elim (fun h => congrArg _ (Except.error.inj h)) fun ⟨_, h, _⟩ => nomatch h⟩
  | ok a =>
    exact ⟨fun h => .inr ⟨a, rfl, h⟩,
      fun h => h.elim (fun h => nomatch h) fun ⟨_, ha, h⟩ => by cases ha; exact h⟩

/-- A check that throws on `c` lets the rest through exactly when `c` is false. -/
theorem guard_eq_ok {c : Prop} [Decidable c] {e : ε} {f : Unit → Except ε α} {a : α} :
    (if c then (throw e >>= f : Except ε α) else f ()) = .ok a ↔ ¬c ∧ f () = .ok a := by
  by_cases hc : c
  · rw [if_pos hc]
    exact ⟨fun h => (nomatch h), fun h => absurd hc h.1⟩
  · rw [if_neg hc]
    exact ⟨fun h => ⟨hc, h⟩, fun h => h.2⟩

/-! ## Lists -/

/-- Checks over a list succeed exactly when each of them does. -/
theorem forM_eq_ok {f : α → Except ε Unit} {l : List α} : l.forM f = .ok () ↔ ∀ a ∈ l, f a = .ok () := by
  induction l with
  | nil => exact ⟨fun _ a ha => absurd ha List.not_mem_nil, fun _ => rfl⟩
  | cons a l ih =>
    rw [show (a :: l).forM f = f a >>= fun _ => l.forM f from rfl, bind_eq_ok]
    constructor
    · rintro ⟨_, ha, hl⟩ b hb
      rcases List.mem_cons.mp hb with rfl | hb
      · exact ha
      · exact ih.mp hl b hb
    · intro h
      exact ⟨(), h a List.mem_cons_self, ih.mpr fun b hb => h b (List.mem_cons_of_mem _ hb)⟩

/-- What every step of a fold keeps holds at its end. -/
theorem foldlM_keeps {P : β → Prop} {f : β → α → Except ε β} {l : List α} {b b' : β}
    (hstep : ∀ a ∈ l, ∀ c c', P c → f c a = .ok c' → P c') (hb : P b) (h : l.foldlM f b = .ok b') :
    P b' := by
  induction l generalizing b with
  | nil => cases h; exact hb
  | cons a l ih =>
    rw [List.foldlM_cons, bind_eq_ok] at h
    obtain ⟨c, hc, hl⟩ := h
    exact ih (fun a' ha' => hstep a' (List.mem_cons_of_mem _ ha'))
      (hstep a List.mem_cons_self b c hb hc) hl

/-- A fold succeeds if each step does from wherever the steps before it may lead. -/
theorem foldlM_succeeds {P : β → Prop} {f : β → α → Except ε β} {l : List α} {b : β}
    (hstep : ∀ a ∈ l, ∀ c, P c → ∃ c', f c a = .ok c' ∧ P c') (hb : P b) :
    ∃ b', l.foldlM f b = .ok b' ∧ P b' := by
  induction l generalizing b with
  | nil => exact ⟨b, rfl, hb⟩
  | cons a l ih =>
    obtain ⟨c, hc, hPc⟩ := hstep a List.mem_cons_self b hb
    obtain ⟨b', hl, hPb'⟩ := ih (fun a' ha' => hstep a' (List.mem_cons_of_mem _ ha')) hPc
    exact ⟨b', by rw [List.foldlM_cons, bind_eq_ok]; exact ⟨c, hc, hl⟩, hPb'⟩

/-- A fold that fails does so at some member. -/
theorem foldlM_error {f : β → α → Except ε β} {l : List α} {b : β} {e : ε}
    (h : l.foldlM f b = .error e) :
    ∃ a ∈ l, ∃ c, f c a = .error e := by
  induction l generalizing b with
  | nil => cases h
  | cons a l ih =>
    rw [List.foldlM_cons, bind_eq_error] at h
    rcases h with ha | ⟨c, _, hl⟩
    · exact ⟨a, List.mem_cons_self, b, ha⟩
    · obtain ⟨a', ha', h'⟩ := ih hl
      exact ⟨a', List.mem_cons_of_mem _ ha', h'⟩

/-- Folds by functions that agree on the members agree. -/
theorem foldlM_agree {f g : β → α → Except ε β} {l : List α} (h : ∀ a ∈ l, ∀ c, f c a = g c a) (b : β) :
    l.foldlM f b = l.foldlM g b := by
  induction l generalizing b with
  | nil => rfl
  | cons a l ih =>
    rw [List.foldlM_cons, List.foldlM_cons, h a List.mem_cons_self b]
    exact congrArg _ (funext fun c => ih (fun a' ha' => h a' (List.mem_cons_of_mem _ ha')) c)

/-- Every result of a successful traversal is the result at some member. -/
theorem mapM_mem {f : α → Except ε β} {l : List α} {bs : List β} (h : l.mapM f = .ok bs) {b : β}
    (hb : b ∈ bs) :
    ∃ a ∈ l, f a = .ok b := by
  induction l generalizing bs with
  | nil => cases h; exact absurd hb List.not_mem_nil
  | cons a l ih =>
    rw [List.mapM_cons, bind_eq_ok] at h
    obtain ⟨b', ha, h⟩ := h
    rw [bind_eq_ok] at h
    obtain ⟨bs', hl, h⟩ := h
    cases h
    rcases List.mem_cons.mp hb with rfl | hb
    · exact ⟨a, List.mem_cons_self, ha⟩
    · obtain ⟨a', ha', h'⟩ := ih hl hb
      exact ⟨a', List.mem_cons_of_mem _ ha', h'⟩

/-- A traversal succeeds if it does at every member. -/
theorem mapM_succeeds {f : α → Except ε β} {l : List α} (h : ∀ a ∈ l, ∃ b, f a = .ok b) :
    ∃ bs, l.mapM f = .ok bs := by
  induction l with
  | nil => exact ⟨[], rfl⟩
  | cons a l ih =>
    obtain ⟨b, hb⟩ := h a List.mem_cons_self
    obtain ⟨bs, hbs⟩ := ih fun a' ha' => h a' (List.mem_cons_of_mem _ ha')
    refine ⟨b :: bs, ?_⟩
    rw [List.mapM_cons, hb, hbs]
    rfl

/-- A traversal fails exactly when it does at some member. -/
theorem mapM_error_iff {f : α → Except ε β} {l : List α} :
    (∃ e, l.mapM f = .error e) ↔ ∃ a ∈ l, ∃ e, f a = .error e := by
  induction l with
  | nil => exact ⟨fun ⟨_, h⟩ => (nomatch h), fun ⟨_, h, _⟩ => absurd h List.not_mem_nil⟩
  | cons a l ih =>
    rw [List.mapM_cons]
    cases ha : f a with
    | error e => exact ⟨fun _ => ⟨a, List.mem_cons_self, e, ha⟩, fun _ => ⟨e, rfl⟩⟩
    | ok b =>
      constructor
      · rintro ⟨e, h⟩
        rcases bind_eq_error.mp h with h | ⟨_, _, h⟩
        · cases h
        · rcases bind_eq_error.mp h with hl | ⟨_, _, h⟩
          · obtain ⟨a', ha', h'⟩ := ih.mp ⟨e, hl⟩
            exact ⟨a', List.mem_cons_of_mem _ ha', h'⟩
          · cases h
      · rintro ⟨a', ha', e, h'⟩
        rcases List.mem_cons.mp ha' with rfl | ha'
        · rw [ha] at h'
          cases h'
        · obtain ⟨e', hl⟩ := ih.mpr ⟨a', ha', e, h'⟩
          exact ⟨e', bind_eq_error.mpr (.inr ⟨b, rfl, bind_eq_error.mpr (.inl hl)⟩)⟩

/-- What each result of a traversal looks like, their concatenation looks like. -/
theorem mapM_flatten {f : α → Except ε (List β)} {g : β → γ} {k : α → List γ} {l : List α}
    {bs : List (List β)} (h : l.mapM f = .ok bs) (hk : ∀ a ∈ l, ∀ b, f a = .ok b → b.map g = k a) :
    bs.flatten.map g = l.flatMap k := by
  induction l generalizing bs with
  | nil => cases h; rfl
  | cons a l ih =>
    rw [List.mapM_cons, bind_eq_ok] at h
    obtain ⟨b, ha, h⟩ := h
    rw [bind_eq_ok] at h
    obtain ⟨bs', hl, h⟩ := h
    cases h
    rw [List.flatten_cons, List.map_append, List.flatMap_cons, hk a List.mem_cons_self b ha,
      ih hl fun a' ha' => hk a' (List.mem_cons_of_mem _ ha')]

/-- Traversals by functions that agree on the members agree. -/
theorem mapM_agree {f g : α → Except ε β} {l : List α} (h : ∀ a ∈ l, f a = g a) :
    l.mapM f = l.mapM g := by
  induction l with
  | nil => rfl
  | cons a l ih =>
    rw [List.mapM_cons, List.mapM_cons, h a List.mem_cons_self,
      ih fun b hb => h b (List.mem_cons_of_mem _ hb)]

/-! ## Attempts -/

theorem state_within (x : Attempt σ ε α) (f : σ → τ) : (x.within f).state = f x.state := rfl

/-- Going on with steps that leave the state alone leaves it alone. -/
theorem state_andThen {x : Attempt σ ε α} {f : α → σ → Attempt σ ε β} (h : ∀ a s, (f a s).state = s) :
    (x.andThen f).state = x.state := by
  obtain ⟨r, s⟩ := x
  cases r with
  | error e => rfl
  | ok a => exact h a s

/-- An attempt that goes on succeeds exactly when both halves do. -/
theorem andThen_result_ok {x : Attempt σ ε α} {f : α → σ → Attempt σ ε β} {b : β} :
    (x.andThen f).result = .ok b ↔ ∃ a, x.result = .ok a ∧ (f a x.state).result = .ok b := by
  obtain ⟨r, s⟩ := x
  cases r with
  | error e => exact ⟨fun h => (nomatch h), fun ⟨_, h, _⟩ => (nomatch h)⟩
  | ok a => exact ⟨fun h => ⟨a, rfl, h⟩, fun ⟨_, ha, h⟩ => by cases ha; exact h⟩

/-- The same with the states that they leave. -/
theorem andThen_eq_ok {x : Attempt σ ε α} {f : α → σ → Attempt σ ε β} {b : β} {s' : σ} :
    x.andThen f = .ok b s' ↔ ∃ a s, x = .ok a s ∧ f a s = .ok b s' := by
  obtain ⟨r, s⟩ := x
  constructor
  · intro h
    cases r with
    | error e => cases h
    | ok a => exact ⟨a, s, rfl, h⟩
  · rintro ⟨a, s, hx, h⟩
    rw [hx, Attempt.andThen_ok, h]

/-- What every attempt of a list keeps, whether it succeeds or fails, the whole list keeps. -/
theorem forEach_keeps {P : σ → Prop} {f : α → σ → Attempt σ ε Unit} {l : List α} {s : σ}
    (hstep : ∀ a ∈ l, ∀ s, P s → P (f a s).state) (hs : P s) : P (Attempt.forEach f l s).state := by
  induction l generalizing s with
  | nil => exact hs
  | cons a l ih =>
    have ha : P (f a s).state := hstep a List.mem_cons_self s hs
    rw [Attempt.forEach]
    unfold Attempt.andThen
    cases (f a s).result with
    | error e => exact ha
    | ok u => exact ih (fun a' ha' => hstep a' (List.mem_cons_of_mem _ ha')) ha

/-- What every effect keeps, whether it can be carried out or not, a list of effects keeps however far it
gets. -/
theorem recordAll_keeps {ω : Type} [World ω] {r : Registry} {I : ω → Prop}
    (hstep : ∀ e w, I w → I (r.enact w e).state) (es : List Effect) (m : Memory) {w : ω} (hw : I w) :
    I (r.recordAll es m w).state := by
  induction es generalizing m w with
  | nil => exact hw
  | cons e es ih =>
    have he : I (r.enact w e).state := hstep e w hw
    rw [Registry.recordAll]
    unfold Attempt.andThen
    cases (r.enact w e).result with
    | error _ => exact he
    | ok change => exact ih _ he

end Outcome
end Narrative

import Narrative.Proofs.Recording
import Narrative.Proofs.Validation

/-!
# `Proofs.Exploring` — one round of a search, taken apart

A round of `explore` tries the preconditions of an action in order, then carries out its effects in
order, then goes on below its children. Each of the three may fail, and each failure can be said
without running anything up to it: some precondition fails to evaluate and none before it is false;
some effect cannot be carried out on what the effects before it leave; some child's search fails.
What a round gives, and when it fails, is stated here once, and no other proof takes a round apart.

## Contents
- **Lists of conditions.** `Undecided` for preconditions, `enactAll` and `Blocked` for effects.
- **Rounds.** `enter_ok`, `exploreRound_eq_ok` and `exploreRound_error_iff`.
-/

namespace Narrative
open Outcome

variable {ω : Type} [World ω] {r : Registry} {w : ω}

/-! ## Lists of conditions -/

namespace Registry

/-- Some precondition fails to evaluate, and none before it is false. -/
def Undecided (r : Registry) (w : ω) (ps : List Precondition) : Prop :=
  ∃ before c after, ps = before ++ c :: after ∧ (∀ b ∈ before, r.evaluate w b ≠ .ok false) ∧
    ∃ e, r.evaluate w c = .error e

theorem evaluateAll_eq_true {ps : List Precondition} :
    r.evaluateAll w ps = .ok true ↔ ∀ c ∈ ps, r.evaluate w c = .ok true := by
  induction ps with
  | nil => exact ⟨fun _ _ h => absurd h List.not_mem_nil, fun _ => rfl⟩
  | cons c ps ih =>
    rw [evaluateAll, List.forall_mem_cons, bind_eq_ok]
    constructor
    · rintro ⟨b, hb, h⟩
      cases b with
      | false => cases h
      | true => exact ⟨hb, ih.mp h⟩
    · rintro ⟨hc, hps⟩
      exact ⟨true, hc, ih.mpr hps⟩

theorem false_of_evaluateAll {ps : List Precondition} (h : r.evaluateAll w ps = .ok false) :
    ∃ c ∈ ps, r.evaluate w c = .ok false := by
  induction ps with
  | nil => cases h
  | cons c ps ih =>
    rw [evaluateAll, bind_eq_ok] at h
    obtain ⟨b, hb, h⟩ := h
    cases b with
    | false => exact ⟨c, List.mem_cons_self, hb⟩
    | true =>
      obtain ⟨c', hc', hfalse⟩ := ih h
      exact ⟨c', List.mem_cons_of_mem _ hc', hfalse⟩

theorem undecided_cons {p : Precondition} {ps : List Precondition} : r.Undecided w (p :: ps) ↔
    (∃ e, r.evaluate w p = .error e) ∨ (r.evaluate w p ≠ .ok false ∧ r.Undecided w ps) := by
  constructor
  · rintro ⟨before, c, after, heq, hbefore, hc⟩
    cases before with
    | nil =>
      cases heq
      exact .inl hc
    | cons b before =>
      cases heq
      obtain ⟨hp, hbefore⟩ := List.forall_mem_cons.mp hbefore
      exact .inr ⟨hp, before, c, after, rfl, hbefore, hc⟩
  · rintro (hp | ⟨hp, before, c, after, rfl, hbefore, hc⟩)
    · exact ⟨[], p, ps, rfl, fun _ h => absurd h List.not_mem_nil, hp⟩
    · exact ⟨p :: before, c, after, rfl, List.forall_mem_cons.mpr ⟨hp, hbefore⟩, hc⟩

/-- Preconditions are tried in order, so they fail exactly when one does before any is false. -/
theorem evaluateAll_error_iff {ps : List Precondition} :
    (∃ e, r.evaluateAll w ps = .error e) ↔ r.Undecided w ps := by
  induction ps with
  | nil =>
    constructor
    · rintro ⟨_, h⟩
      cases h
    · rintro ⟨before, _, _, h, _⟩
      exact absurd h.symm (List.append_ne_nil_of_right_ne_nil before (List.cons_ne_nil _ _))
  | cons p ps ih =>
    rw [evaluateAll, undecided_cons, ← ih]
    cases r.evaluate w p with
    | error e => exact iff_of_true ⟨e, rfl⟩ (.inl ⟨e, rfl⟩)
    | ok b =>
      cases b with
      | false =>
        refine iff_of_false ?_ ?_
        · rintro ⟨_, h⟩
          cases h
        · rintro (⟨_, h⟩ | ⟨h, _⟩)
          · cases h
          · exact h rfl
      | true =>
        constructor
        · exact fun h => .inr ⟨by simp, h⟩
        · rintro (⟨_, h⟩ | ⟨_, h⟩)
          · cases h
          · exact h

/-- The world after effects in order, whether they can be carried out or not. -/
def enactAll (r : Registry) (w : ω) (es : List Effect) : ω := es.foldl (fun w e => (r.enact w e).state) w

/-- Some effect cannot be carried out on what the effects before it leave. -/
def Blocked (r : Registry) (w : ω) (es : List Effect) : Prop :=
  ∃ before e after, es = before ++ e :: after ∧ ∃ err,
    (r.enact (r.enactAll w before) e).result = .error err

theorem state_of_recordAll {es : List Effect} {m m' : Memory} {w : ω}
    (h : (r.recordAll es m w).result = .ok m') :
    (r.recordAll es m w).state = r.enactAll w es := by
  induction es generalizing m w with
  | nil => rfl
  | cons e es ih =>
    rw [recordAll, andThen_result_ok] at h
    obtain ⟨change, he, h⟩ := h
    rw [recordAll]
    unfold Attempt.andThen
    rw [he]
    exact ih h

theorem blocked_cons {e : Effect} {es : List Effect} {w : ω} : r.Blocked w (e :: es) ↔
    (∃ err, (r.enact w e).result = .error err) ∨ r.Blocked (r.enact w e).state es := by
  constructor
  · rintro ⟨before, f, after, heq, hf⟩
    cases before with
    | nil =>
      cases heq
      exact .inl hf
    | cons b before =>
      cases heq
      exact .inr ⟨before, f, after, rfl, hf⟩
  · rintro (he | ⟨before, f, after, rfl, hf⟩)
    · exact ⟨[], e, es, rfl, he⟩
    · exact ⟨e :: before, f, after, rfl, hf⟩

/-- Effects are carried out in order, so they fail exactly when one of them does. -/
theorem recordAll_error_iff {es : List Effect} {m : Memory} {w : ω} :
    (∃ err, (r.recordAll es m w).result = .error err) ↔ r.Blocked w es := by
  induction es generalizing m w with
  | nil =>
    constructor
    · rintro ⟨_, h⟩
      cases h
    · rintro ⟨before, _, _, h, _⟩
      exact absurd h.symm (List.append_ne_nil_of_right_ne_nil before (List.cons_ne_nil _ _))
  | cons e es ih =>
    rw [recordAll, blocked_cons]
    unfold Attempt.andThen
    cases (r.enact w e).result with
    | error err => exact iff_of_true ⟨err, rfl⟩ (.inl ⟨err, rfl⟩)
    | ok change =>
      refine ih.trans ⟨.inr, ?_⟩
      rintro (⟨_, h⟩ | h)
      · cases h
      · exact h

end Registry

/-! ## Rounds -/

namespace Discovery
open Registry

variable {p : Plot} {uid : Uid} {walk entered : Walk ω} {found : List (Walk ω)}
  {below : Uid → Walk ω → Except EvaluationError (List (Walk ω))}

/-- What entering an action makes of a walk. -/
theorem enter_ok {a : Action} (h : walk.enter r uid a = .ok entered) :
    entered.memory.path = walk.memory.path ++ [uid] ∧ entered.label = walk.label.or a.label ∧
      entered.scratch = r.enactAll walk.scratch a.effects := by
  obtain ⟨m, hm, rfl⟩ := map_eq_ok.mp h
  exact ⟨path_of_recordAll hm, rfl, state_of_recordAll hm⟩

theorem enter_error_iff {a : Action} :
    (∃ e, walk.enter r uid a = .error e) ↔ r.Blocked walk.scratch a.effects :=
  (exists_congr fun _ => map_eq_error).trans recordAll_error_iff

/-- A round succeeds in one of three ways: there is no action, the action is closed, or it is
entered and its walks are complete there or go on below its children. -/
theorem exploreRound_eq_ok (h : exploreRound r w p below uid walk = .ok found) :
    (p.action? uid = none ∧ found = []) ∨
    ∃ a, p.action? uid = some a ∧
      ((r.evaluateAll w a.preconditions = .ok false ∧ found = []) ∨
        (r.evaluateAll w a.preconditions = .ok true ∧ ∃ entered, walk.enter r uid a = .ok entered ∧
          ((a.isLeaf = true ∧ found = [entered]) ∨
            (a.isLeaf = false ∧ ∃ branches,
              (a.children.mapM fun child => below child entered) = .ok branches ∧
              found = branches.flatten)))) := by
  unfold exploreRound at h
  cases ha : p.action? uid with
  | none =>
    rw [ha] at h
    cases h
    exact .inl ⟨rfl, rfl⟩
  | some a =>
    rw [ha] at h
    obtain ⟨isOpen, hgate, h⟩ := bind_eq_ok.mp h
    refine .inr ⟨a, rfl, ?_⟩
    cases isOpen with
    | false =>
      cases h
      exact .inl ⟨hgate, rfl⟩
    | true =>
      obtain ⟨entered, hentered, h⟩ := bind_eq_ok.mp h
      refine .inr ⟨hgate, entered, hentered, ?_⟩
      cases hleaf : a.isLeaf with
      | true =>
        rw [if_pos hleaf] at h
        cases h
        exact .inl ⟨rfl, rfl⟩
      | false =>
        rw [if_neg (Bool.eq_false_iff.mp hleaf)] at h
        obtain ⟨branches, hbranches, h⟩ := bind_eq_ok.mp h
        cases h
        exact .inr ⟨rfl, branches, hbranches, rfl⟩

/-- A round fails in one of three places: at the preconditions, at the effects, or below a child. -/
theorem exploreRound_error_iff :
    (∃ e, exploreRound r w p below uid walk = .error e) ↔
    ∃ a, p.action? uid = some a ∧
      (r.Undecided w a.preconditions ∨
        ((∀ c ∈ a.preconditions, r.evaluate w c = .ok true) ∧
          (r.Blocked walk.scratch a.effects ∨
            ∃ entered, walk.enter r uid a = .ok entered ∧
            ∃ child ∈ a.children, ∃ e, below child entered = .error e))) := by
  unfold exploreRound
  cases ha : p.action? uid with
  | none => exact ⟨fun ⟨_, h⟩ => (nomatch h), fun ⟨_, h, _⟩ => (nomatch h)⟩
  | some a =>
    constructor
    · rintro ⟨e, h⟩
      refine ⟨a, rfl, ?_⟩
      rcases bind_eq_error.mp h with hgate | ⟨isOpen, hgate, h⟩
      · exact .inl (evaluateAll_error_iff.mp ⟨e, hgate⟩)
      · cases isOpen with
        | false => cases h
        | true =>
          refine .inr ⟨evaluateAll_eq_true.mp hgate, ?_⟩
          rcases bind_eq_error.mp h with hentered | ⟨entered, hentered, h⟩
          · exact .inl (enter_error_iff.mp ⟨e, hentered⟩)
          · refine .inr ⟨entered, hentered, ?_⟩
            split at h
            · cases h
            · rcases bind_eq_error.mp h with hbranches | ⟨_, _, h⟩
              · exact mapM_error_iff.mp ⟨e, hbranches⟩
              · cases h
    · rintro ⟨_, ha', h⟩
      cases ha'
      rcases h with hgate | ⟨hopen, hblocked | ⟨entered, hentered, child, hchild, hbelow⟩⟩
      · obtain ⟨e, hgate⟩ := evaluateAll_error_iff.mpr hgate
        exact ⟨e, bind_eq_error.mpr (.inl hgate)⟩
      · obtain ⟨e, hentered⟩ := enter_error_iff.mpr hblocked
        refine ⟨e, bind_eq_error.mpr (.inr ⟨true, evaluateAll_eq_true.mpr hopen, ?_⟩)⟩
        exact bind_eq_error.mpr (.inl hentered)
      · -- an action with a child is no leaf
        have hleaf : ¬a.isLeaf = true := fun hleaf => by
          rw [List.isEmpty_iff.mp hleaf] at hchild
          exact List.not_mem_nil hchild
        obtain ⟨e, hbranches⟩ :=
          mapM_error_iff (f := fun child => below child entered).mpr ⟨child, hchild, hbelow⟩
        refine ⟨e, bind_eq_error.mpr (.inr ⟨true, evaluateAll_eq_true.mpr hopen, ?_⟩)⟩
        refine bind_eq_error.mpr (.inr ⟨entered, hentered, ?_⟩)
        rw [if_neg hleaf]
        exact bind_eq_error.mpr (.inl hbranches)

end Discovery
end Narrative

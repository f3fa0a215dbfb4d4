import Narrative.Discovery
import Narrative.Proofs.Recording

/-!
# `Proofs.Filling` — sheets that differ in defaults only

An attribute that is not on a sheet reads as its default, and to refer to it once puts it there at
that default. So the same run may come by sheets on which more or fewer defaults stand. A sheet
**filled** in has all that another has, and beyond that only what the registry gives by default.

Nothing that is asked of sheets can tell the two apart: an attribute has the same characteristic now
on either, so it reads the same and mutates the same. That goes through effects, preconditions,
scratch layers and the whole search for open paths.

## Contents
- **Sheets.** `Sheet.Filled`, kept by writes, removals and growing registries.
- **Worlds.** Preconditions are decided alike; effects are paired by `respects_filled`.
- **Searches.** `Walk.Filled` and the main result `candidates_filled`.
-/

namespace Narrative
open Outcome

/-! ## Sheets -/

/-- The default of an attribute depends on name and kind of its category, not on the other subtypes. -/
theorem Registry.ofCategory_congr {r r' : Registry} (hr : r.Keyed) (hr' : r'.Keyed)
    {category subtype : String} {d d' : Category} (h : r.check category subtype = .ok d)
    (h' : r'.check category subtype = .ok d') (hkind : d'.kind = d.kind) :
    Characteristic.ofCategory d' subtype = .ofCategory d subtype := by
  have hname : d'.name = d.name :=
    (hr' _ d' (check_eq_ok.mp h').1).trans (hr _ d (check_eq_ok.mp h).1).symm
  unfold Characteristic.ofCategory Category.default Category.range?
  rw [hname, hkind]

namespace Sheet

variable {r r' : Registry} {s t : Sheet} {category subtype : String} {d : Category}

/-- A sheet **filled** in: all that stands on `s` stands on `t`, which beyond that holds only defaults of
registered attributes. -/
def Filled (r : Registry) (s t : Sheet) : Prop :=
  ∀ category subtype, t.get? category subtype = s.get? category subtype ∨
    s.get? category subtype = none ∧ ∃ d, r.check category subtype = .ok d ∧
      t.get? category subtype = some (.ofCategory d subtype)

theorem filled_refl (r : Registry) (s : Sheet) : s.Filled r s := fun _ _ => .inl rfl

/-- To refer to an attribute fills in its default at most. -/
theorem filled_materialize (r : Registry) (s : Sheet) (category subtype : String) :
    s.Filled r (s.materialize r category subtype).state := by
  cases h : r.check category subtype with
  | error e => rw [materialize_error h]; exact filled_refl r s
  | ok d =>
    intro category' subtype'
    have hget : (s.materialize r category subtype).state.get? category' subtype' =
        if category' = category ∧ subtype' = subtype then some (s.current d category subtype)
        else s.get? category' subtype' := by
      rw [materialize_ok h]
      exact get?_put s category subtype category' subtype' _
    rw [hget]
    by_cases heq : category' = category ∧ subtype' = subtype
    · obtain ⟨rfl, rfl⟩ := heq
      rw [if_pos ⟨rfl, rfl⟩]
      unfold current
      cases hc : s.get? category' subtype' with
      | some c => exact .inl rfl
      | none => exact .inr ⟨rfl, d, h, rfl⟩
    · rw [if_neg heq]
      exact .inl rfl

/-- A registered attribute has the same characteristic now, whether it has been filled in or not. -/
theorem Filled.current (h : s.Filled r t) (hd : r.check category subtype = .ok d) :
    t.current d category subtype = s.current d category subtype := by
  unfold Sheet.current
  rcases h category subtype with heq | ⟨hnone, d', hd', hdefault⟩
  · rw [heq]
  · rw [hd] at hd'
    cases hd'
    rw [hnone, hdefault]
    rfl

theorem Filled.put (h : s.Filled r t) (category subtype : String) (c : Characteristic) :
    (s.put category subtype c).Filled r (t.put category subtype c) := by
  intro category' subtype'
  rw [get?_put, get?_put]
  by_cases heq : category' = category ∧ subtype' = subtype
  · rw [if_pos heq, if_pos heq]
    exact .inl rfl
  · rw [if_neg heq, if_neg heq]
    exact h category' subtype'

theorem Filled.materialize (h : s.Filled r t) (category subtype : String) :
    (s.materialize r category subtype).Paired (Filled r) (t.materialize r category subtype) := by
  cases hd : r.check category subtype with
  | error e =>
    rw [materialize_error hd, materialize_error hd]
    exact Attempt.paired_error e h
  | ok d =>
    rw [materialize_ok hd, materialize_ok hd, h.current hd]
    exact Attempt.paired_ok _ (h.put category subtype _)

/-- Mutations respect filling in. -/
theorem respects_filled (r : Registry) : r.Respects (Filled r) := by
  intro s t h category subtype op operand
  unfold mutate
  refine (h.materialize category subtype).andThen fun c s' t' h' => ?_
  cases c.change? op operand with
  | error e => exact Attempt.paired_error e h'
  | ok x =>
    obtain ⟨c', change⟩ := x
    exact Attempt.paired_ok change (h'.put category subtype c')

/-- What is filled in stays a default as the registry grows. -/
theorem Filled.mono (h : s.Filled r t) (hr : r.Keyed) (hr' : r'.Keyed) (hgrow : r.Extends r') :
    s.Filled r' t := by
  intro category subtype
  rcases h category subtype with heq | ⟨hnone, d, hd, hdefault⟩
  · exact .inl heq
  · obtain ⟨d', hd', hkind⟩ := hgrow category subtype d hd
    exact .inr ⟨hnone, d', hd', by rw [hdefault, Registry.ofCategory_congr hr hr' hd hd' hkind]⟩

/-- A category goes from both sheets, with what was filled in. -/
theorem Filled.removeCategory (h : s.Filled r t) (removed : String) :
    (s.removeCategory removed).Filled (r.removeCategory removed) (t.removeCategory removed) := by
  intro category subtype
  rw [get?_removeCategory, get?_removeCategory]
  by_cases hc : category = removed
  · rw [if_pos hc, if_pos hc]
    exact .inl rfl
  · rw [if_neg hc, if_neg hc]
    rcases h category subtype with heq | ⟨hnone, d, hd, hdefault⟩
    · exact .inl heq
    · exact .inr ⟨hnone, d, Registry.check_removeCategory hc hd, hdefault⟩

/-- A subtype goes from both sheets; the defaults of the others stay what they are. -/
theorem Filled.removeSubtype (h : s.Filled r t) (hr : r.Keyed) (removed gone : String) :
    (s.removeSubtype removed gone).Filled (r.removeSubtype removed gone)
      (t.removeSubtype removed gone) := by
  intro category subtype
  rw [get?_removeSubtype, get?_removeSubtype]
  by_cases hc : category = removed ∧ subtype = gone
  · rw [if_pos hc, if_pos hc]
    exact .inl rfl
  · rw [if_neg hc, if_neg hc]
    rcases h category subtype with heq | ⟨hnone, d, hd, hdefault⟩
    · exact .inl heq
    · obtain ⟨d', hd', hkind⟩ := Registry.check_removeSubtype hc hd
      have hr' : (r.removeSubtype removed gone).Keyed := Registry.keyed_removeSubtype hr removed gone
      exact .inr ⟨hnone, d', hd', by rw [hdefault, Registry.ofCategory_congr hr hr' hd hd' hkind]⟩

end Sheet

/-! ## Worlds -/

namespace Registry

variable {ω : Type} [World ω] {r : Registry} {w v : ω}

/-- An attribute resolves to the same value, or fails in the same way, in worlds that show the same up to
defaults. -/
theorem resolve_filled (h : World.Shows (Sheet.Filled r) w v) (t : Target) :
    r.resolve v t = r.resolve w t := by
  rcases rel_cases (h t.character) with ⟨hw, hv⟩ | ⟨s, s', hw, hv, hfilled⟩
  · rw [resolve_of_none hw, resolve_of_none hv]
  · rw [resolve_of_some hw, resolve_of_some hv]
    cases hd : r.check t.category t.subtype with
    | error e => rfl
    | ok d => exact congrArg (fun c => Except.ok c.value) (hfilled.current hd)

theorem evaluateAll_filled (h : World.Shows (Sheet.Filled r) w v) (ps : List Precondition) :
    r.evaluateAll v ps = r.evaluateAll w ps := by
  induction ps with
  | nil => rfl
  | cons p ps ih =>
    rw [evaluateAll, evaluateAll, ih]
    unfold evaluate
    rw [resolve_filled h]

end Registry

/-! ## Searches -/

namespace Discovery

variable {ω : Type} [World ω] {r : Registry} {w v : ω} {p : Plot}

/-- Two walks are the same up to defaults on their scratch layers. -/
structure Walk.Filled (r : Registry) (walk walk' : Walk ω) : Prop where
  memory : walk'.memory = walk.memory
  label : walk'.label = walk.label
  scratch : World.Shows (Sheet.Filled r) walk.scratch walk'.scratch

theorem Walk.Filled.enter {walk walk' : Walk ω} (h : walk.Filled r walk') (uid : Uid) (a : Action) :
    Outcome.Paired (Walk.Filled r) (walk.enter r uid a) (walk'.enter r uid a) := by
  unfold Walk.enter
  rw [h.memory, h.label]
  obtain ⟨hresult, hstate⟩ :=
    Registry.recordAll_paired World.carries_shows (Sheet.respects_filled r) a.effects
    ⟨walk.memory.path ++ [uid], walk.memory.vector⟩ h.scratch
  show Outcome.Paired _ ((r.recordAll a.effects _ walk.scratch).result.map _)
    ((r.recordAll a.effects _ walk'.scratch).result.map _)
  rw [← hresult]
  exact Outcome.paired_map fun m _ => ⟨rfl, rfl, hstate⟩

/-- **The search goes the same way**: over worlds that are the same up to defaults it fails alike,
or finds walks that are the same up to defaults, one for one. -/
theorem explore_filled (h : World.Shows (Sheet.Filled r) w v) {depth : Nat} {uid : Uid}
    {walk walk' : Walk ω} (hwalk : walk.Filled r walk') :
    Outcome.Paired (List.Forall₂ (Walk.Filled r)) (explore r w p depth uid walk)
      (explore r v p depth uid walk') := by
  induction depth generalizing uid walk walk' with
  | zero => exact .ok .nil
  | succ depth ih =>
    rw [explore, explore]
    cases p.action? uid with
    | none => exact .ok .nil
    | some a =>
      show Outcome.Paired _ (r.evaluateAll w a.preconditions >>= _)
        (r.evaluateAll v a.preconditions >>= _)
      rw [Registry.evaluateAll_filled h]
      cases r.evaluateAll w a.preconditions with
      | error e => exact .error e
      | ok isOpen =>
        cases isOpen with
        | false => exact .ok .nil
        | true =>
          refine (hwalk.enter uid a).bind fun entered entered' hentered => ?_
          by_cases hleaf : a.isLeaf = true
          · rw [if_pos hleaf, if_pos hleaf]
            exact .ok (.cons hentered .nil)
          · rw [if_neg hleaf, if_neg hleaf]
            refine (Outcome.paired_mapM fun child _ => ih hentered).bind
              fun branches branches' hbranches => ?_
            exact .ok (List.rel_flatten hbranches)

theorem walks_filled (h : World.Shows (Sheet.Filled r) w v) :
    Outcome.Paired (List.Forall₂ (Walk.Filled r)) (walks r w p) (walks r v p) := by
  have hstart : (Walk.start w).Filled r (Walk.start v) := ⟨rfl, rfl, h⟩
  refine (Outcome.paired_mapM fun root _ => explore_filled h hstart).bind
    fun branches branches' hbranches => ?_
  exact .ok (List.rel_flatten hbranches)

/-- **Candidates do not depend on which defaults have been filled in**: paths, scores, labels, their
order, and the errors are the same. -/
theorem candidates_filled (h : World.Shows (Sheet.Filled r) w v) (salience : Binary32)
    (c : Character) (sheet : Sheet) :
    candidates r v salience { c with sheet := sheet } = candidates r w salience c := by
  unfold candidates
  refine congrArg (c.plot.ensureValidated.mapError (StoryError.plot c.name) >>= ·) (funext fun _ => ?_)
  refine (((walks_filled h).mapError StoryError.evaluation).bind_eq fun found found' hfound => congrArg
    Except.ok ?_).symm
  -- a candidate is made of memory and label of its walk
  induction hfound with
  | nil => rfl
  | @cons walk walk' found found' hwalk _ ih =>
    rw [List.map_cons, List.map_cons, ih]
    unfold candidateOf
    rw [hwalk.memory, hwalk.label]

end Discovery

end Narrative

import Narrative.Proofs.Registry

/-!
# `Proofs.Sheet` — a sheet is written in one place at a time

Both ways to write onto a sheet come down to one `put`: the characteristic that an attribute has now, or
the one that it has after a mutation. What is put where it already stands changes nothing, so reading an
attribute twice is reading it once.

The rows of a sheet are never empty (**tidy**): a row appears with its first characteristic and goes with
its last. This is what makes `isEmpty`, which looks at the rows, and `size`, which counts the
characteristics, agree.

## Contents
- **Writing.** `put_get`, `put_put`; `Sheet.current`, `materialize_ok`, `mutate_ok`.
- **Removing.** What `removeCategory` and `removeSubtype` do to `get?`.
- **Rows.** `Sheet.Tidy`, kept by every write and removal; `Tidy.isEmpty_iff`. Tidy sheets are told
  apart by look-up (`Tidy.ext`).
-/

namespace Narrative
open Outcome

/-! ## Maps -/

namespace SortedMap

variable {κ β : Type} [Ord κ] [Std.TransOrd κ] [Std.LawfulEqOrd κ] [DecidableEq κ]

/-- What is put where it already stands changes nothing. -/
theorem insert_get {m : SortedMap κ β} {k : κ} {b : β} (h : m.get? k = some b) : m.insert k b = m := by
  refine ext fun k' => ?_
  rw [get?_insert]
  by_cases hk : k' = k
  · rw [if_pos hk, hk, h]
  · rw [if_neg hk]

/-- Of two values put at one key the later stays. -/
theorem insert_insert (m : SortedMap κ β) (k : κ) (b b' : β) :
    (m.insert k b).insert k b' = m.insert k b' := by
  refine ext fun k' => ?_
  rw [get?_insert, get?_insert, get?_insert]
  by_cases hk : k' = k
  · rw [if_pos hk, if_pos hk]
  · rw [if_neg hk, if_neg hk, if_neg hk]

omit [Std.TransOrd κ] [DecidableEq κ] in
/-- A map is empty exactly when nothing is found in it. -/
theorem isEmpty_iff {m : SortedMap κ β} : m.isEmpty = true ↔ ∀ k, m.get? k = none := by
  unfold isEmpty
  rw [List.isEmpty_iff]
  constructor
  · intro h k
    rw [get?, h]; rfl
  · intro h
    refine List.eq_nil_iff_forall_not_mem.mpr fun e he => ?_
    have hfound : m.get? e.1 = some e.2 := get?_eq_some_iff.mpr he
    rw [h e.1] at hfound
    cases hfound

end SortedMap

namespace Sheet

variable {s : Sheet} {r : Registry} {category subtype : String} {d : Category}

/-! ## Writing -/

theorem get?_eq_some_iff {c : Characteristic} :
    s.get? category subtype = some c ↔
      ∃ row, s.characteristics.get? category = some row ∧ row.get? subtype = some c := by
  unfold get? row
  cases s.characteristics.get? category with
  | none => exact ⟨fun h => (nomatch h), fun ⟨_, h, _⟩ => (nomatch h)⟩
  | some row => exact ⟨fun h => ⟨row, rfl, h⟩, fun ⟨_, hr, h⟩ => by cases hr; exact h⟩

/-- What is put where it already stands changes nothing. -/
theorem put_get {c : Characteristic} (h : s.get? category subtype = some c) :
    s.put category subtype c = s := by
  obtain ⟨row, hrow, hc⟩ := get?_eq_some_iff.mp h
  have hs : s.row category = row := by unfold Sheet.row; rw [hrow]; rfl
  unfold put
  rw [hs, SortedMap.insert_get hc, SortedMap.insert_get hrow]

theorem row_put (s : Sheet) (category subtype : String) (c : Characteristic) :
    (s.put category subtype c).row category = (s.row category).insert subtype c := by
  unfold put row
  rw [SortedMap.get?_insert, if_pos rfl]; rfl

/-- Of two characteristics put at one attribute the later stays. -/
theorem put_put (s : Sheet) (category subtype : String) (c c' : Characteristic) :
    (s.put category subtype c).put category subtype c' = s.put category subtype c' := by
  have hrow := row_put s category subtype c
  unfold put at hrow ⊢
  rw [hrow, SortedMap.insert_insert, SortedMap.insert_insert]

/-- The characteristic that an attribute of a category has: the one on the sheet, or else the default. -/
def current (s : Sheet) (d : Category) (category subtype : String) : Characteristic :=
  (s.get? category subtype).getD (.ofCategory d subtype)

/-- What an attribute reads as is the value of the characteristic that it has. -/
theorem value_current (s : Sheet) (d : Category) (category subtype : String) :
    (s.current d category subtype).value = (s.value? category subtype).getD d.default := by
  unfold current value?
  cases s.get? category subtype <;> rfl

theorem materialize_error {e : EvaluationError} (h : r.check category subtype = .error e) :
    s.materialize r category subtype = .error e s := by
  unfold Registry.check at h
  unfold materialize
  cases hd : r.category? category with
  | none =>
    rw [hd] at h
    cases h; rfl
  | some d =>
    rw [hd] at h
    by_cases hs : d.hasSubtype subtype = true
    · change (if d.hasSubtype subtype = true then _ else _) = Except.error e at h
      rw [if_pos hs] at h
      cases h
    · change (if d.hasSubtype subtype = true then _ else _) = Except.error e at h
      rw [if_neg hs] at h
      cases h
      exact if_neg hs

/-- To materialize an attribute is to put what it has now. -/
theorem materialize_ok (h : r.check category subtype = .ok d) :
    s.materialize r category subtype =
      .ok (s.current d category subtype) (s.put category subtype (s.current d category subtype)) := by
  obtain ⟨hd, hs⟩ := Registry.check_eq_ok.mp h
  unfold materialize current
  rw [hd]
  show (if d.hasSubtype subtype = true then _ else _) = _
  rw [if_pos hs]
  cases hc : s.get? category subtype with
  | none => rfl
  | some c =>
    show Attempt.ok c s = Attempt.ok c (s.put category subtype c)
    rw [put_get hc]

theorem mutate_error {op : Mutation} {operand : Value} {e : EvaluationError}
    (h : r.check category subtype = .error e) :
    s.mutate r category subtype op operand = .error e s := by
  unfold mutate
  rw [materialize_error h, Attempt.andThen_error]

/-- To mutate an attribute is to put what it has after the mutation, or what it has now if the mutation
fails. -/
theorem mutate_ok {op : Mutation} {operand : Value} (h : r.check category subtype = .ok d) :
    s.mutate r category subtype op operand =
      match (s.current d category subtype).change? op operand with
      | .ok (c, change) => .ok change (s.put category subtype c)
      | .error e => .error e (s.put category subtype (s.current d category subtype)) := by
  unfold mutate
  rw [materialize_ok h, Attempt.andThen_ok]
  cases (s.current d category subtype).change? op operand with
  | error e => rfl
  | ok x =>
    obtain ⟨c, change⟩ := x
    show Attempt.ok change ((s.put category subtype _).put category subtype c) = _
    rw [put_put]

/-! ## Removing -/

theorem get?_removeCategory (s : Sheet) (removed category subtype : String) :
    (s.removeCategory removed).get? category subtype =
      if category = removed then none else s.get? category subtype := by
  unfold removeCategory get? row
  rw [SortedMap.get?_erase]
  by_cases hc : category = removed
  · rw [if_pos hc, if_pos hc]; rfl
  · rw [if_neg hc, if_neg hc]

theorem get?_removeSubtype (s : Sheet) (removed gone category subtype : String) :
    (s.removeSubtype removed gone).get? category subtype =
      if category = removed ∧ subtype = gone then none else s.get? category subtype := by
  unfold removeSubtype
  cases hrow : s.characteristics.get? removed with
  | none =>
    by_cases h : category = removed ∧ subtype = gone
    · rw [if_pos h, h.1]
      unfold get? row
      rw [hrow]; rfl
    · rw [if_neg h]
  | some line =>
    by_cases hempty : (line.erase gone).isEmpty = true
    · -- the last characteristic of its category goes, and the row with it
      show Sheet.get? (if (line.erase gone).isEmpty = true then _ else _) category subtype = _
      rw [if_pos hempty]
      unfold get? row
      rw [SortedMap.get?_erase]
      by_cases hc : category = removed
      · subst hc
        have hnone := SortedMap.isEmpty_iff.mp hempty subtype
        rw [SortedMap.get?_erase] at hnone
        rw [if_pos rfl, hrow]
        by_cases hs : subtype = gone
        · rw [if_pos ⟨rfl, hs⟩]; rfl
        · rw [if_neg hs] at hnone
          rw [if_neg fun h => hs h.2]
          exact hnone.symm
      · rw [if_neg hc, if_neg fun h => hc h.1]
    · show Sheet.get? (if (line.erase gone).isEmpty = true then _ else _) category subtype = _
      rw [if_neg hempty]
      unfold get? row
      rw [SortedMap.get?_insert]
      by_cases hc : category = removed
      · subst hc
        rw [if_pos rfl, Option.getD_some, SortedMap.get?_erase, hrow, Option.getD_some]
        by_cases hs : subtype = gone
        · rw [if_pos hs, if_pos ⟨rfl, hs⟩]
        · rw [if_neg hs, if_neg fun h => hs h.2]
      · rw [if_neg hc, if_neg fun h => hc h.1]

/-! ## Rows -/

/-- A sheet is **tidy** if every row on it holds a characteristic. -/
def Tidy (s : Sheet) : Prop :=
  ∀ category row, s.characteristics.get? category = some row → row.isEmpty = false

theorem tidy_empty : Tidy empty := fun _ _ h => nomatch h

theorem tidy_put (hs : s.Tidy) (category subtype : String) (c : Characteristic) :
    (s.put category subtype c).Tidy := by
  intro category' row hrow
  unfold put at hrow
  rw [SortedMap.get?_insert] at hrow
  by_cases hc : category' = category
  · rw [if_pos hc] at hrow
    cases hrow
    rw [Bool.eq_false_iff]
    intro hempty
    have hnone := SortedMap.isEmpty_iff.mp hempty subtype
    rw [SortedMap.get?_insert, if_pos rfl] at hnone
    cases hnone
  · rw [if_neg hc] at hrow
    exact hs category' row hrow

theorem tidy_removeCategory (hs : s.Tidy) (removed : String) : (s.removeCategory removed).Tidy := by
  intro category row hrow
  unfold removeCategory at hrow
  rw [SortedMap.get?_erase] at hrow
  by_cases hc : category = removed
  · rw [if_pos hc] at hrow; cases hrow
  · rw [if_neg hc] at hrow
    exact hs category row hrow

theorem tidy_removeSubtype (hs : s.Tidy) (removed gone : String) :
    (s.removeSubtype removed gone).Tidy := by
  unfold removeSubtype
  cases hrow : s.characteristics.get? removed with
  | none => exact hs
  | some line =>
    by_cases hempty : (line.erase gone).isEmpty = true
    · show Tidy (if (line.erase gone).isEmpty = true then _ else _)
      rw [if_pos hempty]
      exact tidy_removeCategory hs removed
    · show Tidy (if (line.erase gone).isEmpty = true then _ else _)
      rw [if_neg hempty]
      intro category row' hrow'
      rw [SortedMap.get?_insert] at hrow'
      by_cases hc : category = removed
      · rw [if_pos hc] at hrow'
        cases hrow'
        exact Bool.eq_false_iff.mpr hempty
      · rw [if_neg hc] at hrow'
        exact hs category row' hrow'

/-- The size is a sum over the rows, so it is zero only if every row is empty. -/
theorem sum_sizes_eq_zero (rows : List (SortedMap String Characteristic)) (n : Nat) :
    rows.foldl (fun n row => n + row.size) n = 0 ↔ n = 0 ∧ ∀ row ∈ rows, row.isEmpty = true := by
  induction rows generalizing n with
  | nil => exact ⟨fun h => ⟨h, fun _ h => absurd h List.not_mem_nil⟩, fun h => h.1⟩
  | cons row rows ih =>
    have hsize : row.size = 0 ↔ row.isEmpty = true := by
      unfold SortedMap.size SortedMap.isEmpty
      rw [List.length_eq_zero_iff, List.isEmpty_iff]
    rw [List.foldl_cons, ih, Nat.add_eq_zero_iff, hsize, List.forall_mem_cons, and_assoc]

/-- A tidy sheet without rows is one without characteristics, and the other way round. -/
theorem Tidy.isEmpty_iff (hs : s.Tidy) : s.isEmpty = true ↔ s.size = 0 := by
  unfold size isEmpty
  rw [sum_sizes_eq_zero]
  constructor
  · intro h
    refine ⟨rfl, fun row hrow => ?_⟩
    obtain ⟨e, he, _⟩ := List.mem_map.mp hrow
    have hfound := SortedMap.get?_eq_some_iff.mpr he
    rw [SortedMap.isEmpty_iff.mp h e.1] at hfound
    cases hfound
  · rintro ⟨_, h⟩
    refine SortedMap.isEmpty_iff.mpr fun category => ?_
    cases hrow : s.characteristics.get? category with
    | none => rfl
    | some row =>
      have hmem : row ∈ s.characteristics.values :=
        List.mem_map.mpr ⟨_, SortedMap.get?_eq_some_iff.mp hrow, rfl⟩
      exact absurd (h row hmem) (by rw [hs category row hrow]; exact Bool.false_ne_true)

/-- A tidy sheet has no row exactly where nothing is found. -/
theorem Tidy.get?_eq_none_iff (hs : s.Tidy) :
    s.characteristics.get? category = none ↔ ∀ subtype, s.get? category subtype = none := by
  constructor
  · intro hnone subtype
    unfold get? row
    rw [hnone]
    rfl
  · intro hall
    cases hrow : s.characteristics.get? category with
    | none => rfl
    | some row =>
      have hempty : row.isEmpty = true := by
        apply SortedMap.isEmpty_iff.mpr
        intro subtype
        have hnone := hall subtype
        unfold get? Sheet.row at hnone
        rw [hrow] at hnone
        exact hnone
      rw [hs category row hrow] at hempty
      cases hempty

/-- Tidy sheets on which the same is found are the same. -/
theorem Tidy.ext {t : Sheet} (hs : s.Tidy) (ht : t.Tidy)
    (h : ∀ category subtype, s.get? category subtype = t.get? category subtype) : s = t := by
  refine congrArg Sheet.mk (SortedMap.ext fun category => ?_)
  cases hrow : s.characteristics.get? category with
  | none =>
    have hnone := hs.get?_eq_none_iff.mp hrow
    simp only [h] at hnone
    exact (ht.get?_eq_none_iff.mpr hnone).symm
  | some line =>
    cases hrow' : t.characteristics.get? category with
    | none =>
      have hnone := ht.get?_eq_none_iff.mp hrow'
      simp only [← h] at hnone
      rw [hs.get?_eq_none_iff.mpr hnone] at hrow
      cases hrow
    | some line' =>
      refine congrArg some (SortedMap.ext fun subtype => ?_)
      have hsame := h category subtype
      unfold get? row at hsame
      rw [hrow, hrow'] at hsame
      exact hsame

end Sheet

end Narrative

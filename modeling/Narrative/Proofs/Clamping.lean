import Narrative.Proofs.Typing

/-!
# `Proofs.Clamping` — which sums stay in their range

A sum is stopped at one end of the range: an addition at the largest value, a subtraction at the
smallest. At the other end nothing stops it. With an operand that is not negative it moves away from
that end, and stays in the range. A negative operand takes it there and beyond, as far as the 64-bit
integers go.

So a value that starts in its range stays there through a list of sums exactly as long as each of
them is **guarded**, that is, as the saturated sum does not pass the open end. Only where a range
begins or ends with the 64-bit integers themselves is saturation stop enough.

## Contents
- **Shifts.** `Shift`, `Shift.after` and `Shift.Guarded`; one sum in `contains_after_iff`.
- **Runs.** `Characteristic.trace`, the values on the way; the main result `trace_in_range_iff`.
- A sum that leaves its range: `sum_leaves_its_range`.
-/

namespace Narrative
open Outcome

/-! ## Shifts -/

/-- A sum of a value and an operand. -/
inductive Shift where
  | add (operand : Int64)
  | subtract (operand : Int64)

namespace Shift

/-- The mutation that carries out the sum. -/
def op : Shift → Mutation
  | add _ => .add
  | subtract _ => .subtract

def operand : Shift → Int64
  | add n => n
  | subtract n => n

/-- The value after a sum: it saturates, and is stopped at the far end of the range. -/
def after (r : Range) (v : Int64) : Shift → Int64
  | add n => min (saturate (v.toInt + n.toInt)) r.max
  | subtract n => max (saturate (v.toInt - n.toInt)) r.min

/-- A sum is **guarded** if it does not pass the end of the range at which nothing stops it. -/
def Guarded (r : Range) (v : Int64) : Shift → Prop
  | add n => r.min ≤ saturate (v.toInt + n.toInt)
  | subtract n => saturate (v.toInt - n.toInt) ≤ r.max

variable {r : Range} {v : Int64} {s : Shift}

theorem contains_iff {n : Int64} : r.contains n = true ↔ r.min ≤ n ∧ n ≤ r.max := by
  unfold Range.contains
  rw [Bool.and_eq_true, decide_eq_true_iff, decide_eq_true_iff]

/-- **A sum ends in the range exactly if it is guarded**, wherever it started. -/
theorem contains_after_iff (hr : r.min ≤ r.max) : r.contains (s.after r v) = true ↔ s.Guarded r v := by
  rw [contains_iff]
  cases s with
  | add n =>
    show _ ∧ min (saturate (v.toInt + n.toInt)) r.max ≤ _ ↔ r.min ≤ saturate (v.toInt + n.toInt)
    rw [and_iff_left Std.min_le_right]
    exact Std.le_min_iff.trans (and_iff_left hr)
  | subtract n =>
    -- the larger of the sum and the lower bound is one of the two
    have hafter : (subtract n).after r v =
        if saturate (v.toInt - n.toInt) ≤ r.min then r.min else saturate (v.toInt - n.toInt) := rfl
    rw [hafter, Guarded]
    split
    · next hless => exact ⟨fun _ => Int64.le_trans hless hr, fun _ => ⟨Int64.le_refl _, hr⟩⟩
    · next hmore => exact and_iff_right ((Int64.le_total _ _).resolve_left hmore)

/-- Operands that are not negative lead away from the open end. -/
theorem guarded_of_nonneg (hv : r.contains v = true) (hs : 0 ≤ s.operand.toInt) : s.Guarded r v := by
  obtain ⟨hmin, hmax⟩ := contains_iff.mp hv
  rw [Int64.le_iff_toInt_le] at hmin hmax
  have hlow : Int64.minValue.toInt ≤ r.min.toInt := Int64.minValue_le_toInt r.min
  have hhigh : r.max.toInt ≤ Int64.maxValue.toInt := Int64.toInt_le r.max
  cases s with
  | add n =>
    change 0 ≤ n.toInt at hs
    show r.min ≤ saturate (v.toInt + n.toInt)
    rw [Int64.le_iff_toInt_le, toInt_saturate]
    have hv := Int64.toInt_le v
    omega
  | subtract n =>
    change 0 ≤ n.toInt at hs
    show saturate (v.toInt - n.toInt) ≤ r.max
    rw [Int64.le_iff_toInt_le, toInt_saturate]
    have hv := Int64.minValue_le_toInt v
    omega

end Shift

/-! ## Runs -/

namespace Characteristic

/-- The values that a characteristic takes on one after the other when sums are carried out on it. -/
def trace (c : Characteristic) : List Shift → Except EvaluationError (List Value)
  | [] => .ok []
  | s :: rest => do
    let (c', change) ← c.change? s.op (.int s.operand)
    return change.after :: (← c'.trace rest)

/-- The values after each of a list of sums. -/
def valuesAfter (r : Range) : Int64 → List Shift → List Int64
  | _, [] => []
  | v, s :: rest => s.after r v :: valuesAfter r (s.after r v) rest

variable {c : Characteristic} {r : Range} {v : Int64}

/-- A sum on a characteristic with a range goes through. -/
theorem change?_shift (hr : c.range = some r) (hv : c.value = .int v) (s : Shift) :
    c.change? s.op (.int s.operand) =
      .ok ({ c with value := .int (s.after r v) }, ⟨c.value, .int (s.after r v), c.range⟩) := by
  have hmutated : c.mutated s.op (.int s.operand) = .ok (.int (s.after r v)) := by
    unfold mutated
    rw [hr, hv]
    cases s <;> rfl
  exact change?_eq_ok.mpr ⟨_, hmutated, rfl, rfl⟩

/-- Sums on a characteristic with a range all go through. -/
theorem trace_eq_ok (hr : c.range = some r) (hv : c.value = .int v) (shifts : List Shift) :
    c.trace shifts = .ok ((valuesAfter r v shifts).map .int) := by
  induction shifts generalizing c v with
  | nil => rfl
  | cons s rest ih =>
    rw [trace, change?_shift hr hv s]
    show (trace _ rest >>= _) = _
    rw [ih (c := { c with value := .int (s.after r v) }) hr rfl]
    rfl

theorem length_valuesAfter (r : Range) (v : Int64) (shifts : List Shift) :
    (valuesAfter r v shifts).length = shifts.length := by
  induction shifts generalizing v with
  | nil => rfl
  | cons s rest ih => rw [valuesAfter, List.length_cons, List.length_cons, ih]

theorem valuesAfter_in_range_iff (hr : r.min ≤ r.max) (shifts : List Shift) :
    (∀ n ∈ valuesAfter r v shifts, r.contains n = true) ↔
      ∀ x ∈ shifts.zip (v :: valuesAfter r v shifts), x.1.Guarded r x.2 := by
  induction shifts generalizing v with
  | nil => exact ⟨fun _ _ hx => absurd hx List.not_mem_nil, fun _ _ hn => absurd hn List.not_mem_nil⟩
  | cons s rest ih =>
    rw [valuesAfter, List.zip_cons_cons, List.forall_mem_cons, List.forall_mem_cons]
    exact and_congr (Shift.contains_after_iff hr) ih

theorem valuesAfter_in_range {shifts : List Shift} (hv : r.contains v = true)
    (hshifts : ∀ s ∈ shifts, 0 ≤ s.operand.toInt) :
    ∀ n ∈ valuesAfter r v shifts, r.contains n = true := by
  induction shifts generalizing v with
  | nil => exact fun _ hn => absurd hn List.not_mem_nil
  | cons s rest ih =>
    obtain ⟨hs, hrest⟩ := List.forall_mem_cons.mp hshifts
    obtain ⟨hmin, hmax⟩ := Shift.contains_iff.mp hv
    have hafter : r.contains (s.after r v) = true :=
      (Shift.contains_after_iff (Int64.le_trans hmin hmax)).mpr (Shift.guarded_of_nonneg hv hs)
    exact List.forall_mem_cons.mpr ⟨hafter, ih hafter hrest⟩

/-- **Sums stay in the range exactly as long as each of them is guarded.** A characteristic with a
range and a value inside it takes any list of additions and subtractions, with any operands. All
values on the way lie in the range exactly if no sum, from the value before it, passes the end at
which it is not stopped. Sums with operands that are not negative never do. -/
theorem trace_in_range_iff (hr : c.range = some r) (hv : c.value = .int v) (hin : r.contains v = true)
    (shifts : List Shift) :
    ∃ values : List Int64, c.trace shifts = .ok (values.map .int) ∧ values.length = shifts.length ∧
      ((∀ n ∈ values, r.contains n = true) ↔ ∀ x ∈ shifts.zip (v :: values), x.1.Guarded r x.2) ∧
      ((∀ s ∈ shifts, 0 ≤ s.operand.toInt) → ∀ n ∈ values, r.contains n = true) := by
  have hbounds : r.min ≤ r.max := by
    obtain ⟨hmin, hmax⟩ := Shift.contains_iff.mp hin
    exact Int64.le_trans hmin hmax
  exact ⟨valuesAfter r v shifts, trace_eq_ok hr hv shifts, length_valuesAfter r v shifts,
    valuesAfter_in_range_iff hbounds shifts, valuesAfter_in_range hin⟩

/-- A mood from `0` to `10`. -/
def mood : CategoryDecl := .numeric "Mood" ["happy"] 0 10 5

/-- What is being happy at first. -/
def happy : Characteristic := ⟨"Mood", "happy", .int 5, some ⟨0, 10⟩⟩

/-- Large operands do not take a mood out of its range if they are not negative. -/
theorem trace_in_range_iff_swings : happy.range = some ⟨0, 10⟩ ∧ happy.value = .int 5 ∧
    Range.contains ⟨0, 10⟩ 5 = true ∧ ∃ values : List Int64,
      happy.trace [.add Int64.maxValue, .subtract 3, .subtract Int64.maxValue] = .ok (values.map .int) ∧
        ∀ n ∈ values, Range.contains ⟨0, 10⟩ n = true := by
  have hin : Range.contains ⟨0, 10⟩ 5 = true := by decide
  obtain ⟨values, htrace, _, _, hstay⟩ :=
    trace_in_range_iff (c := happy) rfl rfl hin [.add Int64.maxValue, .subtract 3,
      .subtract Int64.maxValue]
  exact ⟨rfl, rfl, hin, values, htrace, hstay (by decide)⟩

/-- **A sum can leave its range**: from `5`, in a range from `0` to `10`, adding `-6` leads to `-1`. -/
theorem sum_leaves_its_range :
    ¬∀ (decl : CategoryDecl) (d : Category) (r : Range) (c : Characteristic) (v : Int64)
        (shifts : List Shift) (values : List Int64),
      Category.ofDecl decl = .ok d → d.range? = some r → c.Fits d →
      c.value = .int v → r.contains v = true → c.trace shifts = .ok (values.map .int) →
      ∀ n ∈ values, r.contains n = true := by
  intro hall
  have hmood : Category.ofDecl mood = .ok ⟨"Mood", .ofList ["happy"], .numeric ⟨0, 10⟩ 5⟩ := rfl
  have hleft := hall mood _ ⟨0, 10⟩ (.ofCategory _ "happy") 5 [.add (-6)] [-1] hmood rfl
    (fits_ofCategory _ _) rfl (by decide) rfl (-1) List.mem_cons_self
  exact absurd hleft (by decide)

end Characteristic
end Narrative

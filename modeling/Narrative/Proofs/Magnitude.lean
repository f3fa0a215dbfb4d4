import Narrative.Characteristic
import Narrative.Proofs.Registry

/-!
# `Proofs.Magnitude` — how much of its range a change covers

The magnitude of a change is its distance, divided by the width of the range. The distance is exact:
it is counted without a sign, so it may be anything up to the length of the 64-bit integers. The
width is a signed 64-bit integer, and stops at the largest of them. So the quotient is the share of
the range that the change covers as long as the **span** of the range, its true length, is itself a
signed 64-bit integer, and exactly as long. In a longer range a change counts for more than it
covers, and some that leave a part of it uncovered count as full.

A division rounds to single precision. That is left aside here: what is compared are the integers
that are divided.

## Contents
- **Ranges.** `Range.span`, `distance`; `toInt_width` and `distance_le_span`.
- **Measuring.** `Range.Measures`, what the width of a range is for; the main result
  `measures_iff_span_fits`.
- A range that does not measure: `long_range_does_not_measure`.
-/

namespace Narrative

/-! ## Ranges -/

/-- The true length of a range. -/
def Range.span (r : Range) : Int := r.max.toInt - r.min.toInt

/-- How far two integers are apart. -/
def distance (a b : Int64) : Nat := (a.toInt - b.toInt).natAbs

variable {r : Range} {a b : Int64} {decl : CategoryDecl} {d : Category}

/-- A category that is accepted has its bounds in order. -/
theorem bounds_of_ofDecl (hd : Category.ofDecl decl = .ok d) (hr : d.range? = some r) :
    r.min.toInt ≤ r.max.toInt := by
  obtain ⟨_, _, _, kind, hkind, rfl⟩ := Category.ofDecl_eq_ok.mp hd
  cases kind with
  | boolean b => cases hr
  | numeric range n =>
    cases hr
    obtain ⟨_, _, _, _, horder, _⟩ := CategoryKind.ofDecl_eq_numeric.mp hkind
    rw [Int64.lt_iff_toInt_lt] at horder
    omega

/-- The width is the span, as far as there are 64-bit integers. -/
theorem toInt_width (h : r.min.toInt ≤ r.max.toInt) :
    r.width.toInt = min r.span Int64.maxValue.toInt := by
  have hmin : Int64.minValue.toInt = -2 ^ 63 := by decide
  have hmax : Int64.maxValue.toInt = 2 ^ 63 - 1 := by decide
  unfold Range.width Range.span
  rw [toInt_saturate]
  omega

theorem contains_iff_toInt : r.contains a = true ↔ r.min.toInt ≤ a.toInt ∧ a.toInt ≤ r.max.toInt := by
  simp [Range.contains, Int64.le_iff_toInt_le]

/-- Two integers in a range are at most its span apart. -/
theorem distance_le_span (ha : r.contains a = true) (hb : r.contains b = true) :
    (distance a b : Int) ≤ r.span := by
  obtain ⟨_, _⟩ := contains_iff_toInt.mp ha
  obtain ⟨_, _⟩ := contains_iff_toInt.mp hb
  unfold distance Range.span
  omega

/-- Only the two ends of a range are as far apart as its span. -/
theorem ends_of_span_le_distance (ha : r.contains a = true) (hb : r.contains b = true)
    (h : r.span ≤ (distance a b : Int)) : a = r.min ∧ b = r.max ∨ a = r.max ∧ b = r.min := by
  obtain ⟨_, _⟩ := contains_iff_toInt.mp ha
  obtain ⟨_, _⟩ := contains_iff_toInt.mp hb
  simp only [← Int64.toInt_inj]
  unfold distance Range.span at h
  omega

/-! ## Measuring -/

/-- A range **measures** the changes inside it if the quotient of their distance and its width is
the share of the range that they cover. -/
structure Range.Measures (r : Range) : Prop where
  width : r.width.toInt = r.span
  bounded : ∀ a b, r.contains a = true → r.contains b = true → (distance a b : Int) ≤ r.width.toInt
  share : ∀ a b, r.contains a = true → r.contains b = true →
    (distance a b : Rat) / r.width.toInt = (distance a b : Rat) / r.span
  /-- A change of the full width goes from one end to the other. -/
  full : ∀ a b, r.contains a = true → r.contains b = true → r.width.toInt ≤ (distance a b : Int) →
    a = r.min ∧ b = r.max ∨ a = r.max ∧ b = r.min

theorem measures_of_width (h : r.width.toInt = r.span) : r.Measures where
  width := h
  bounded := by
    intro a b ha hb
    rw [h]
    exact distance_le_span ha hb
  share := by
    intro a b _ _
    rw [h]
  full := by
    intro a b ha hb hfull
    rw [h] at hfull
    exact ends_of_span_le_distance ha hb hfull

/-- Inside its range a change weighs the quotient of distance and width, and at most one. -/
theorem magnitude_in_range (ha : r.contains a = true) (hb : r.contains b = true) :
    (Change.mk (.int a) (.int b) (some r)).magnitude =
      if distance a b = 0 then .zero
      else (Binary32.ofInt (distance a b) / Binary32.ofInt r.width.toInt).min .one := by
  show (if distance a b = 0 then Binary32.zero
    else if 0 < r.width then
      (Binary32.ofInt (distance a b) / Binary32.ofInt r.width.toInt).min .one
    else .one) = _
  by_cases hmoved : distance a b = 0
  · rw [if_pos hmoved, if_pos hmoved]
  · -- where two integers differ there is some width
    have hwidth : 0 < r.width := by
      have hspan := distance_le_span ha hb
      obtain ⟨hmin, hmax⟩ := contains_iff_toInt.mp ha
      have hmaxValue : Int64.maxValue.toInt = 2 ^ 63 - 1 := by decide
      have hzero : (0 : Int64).toInt = 0 := by decide
      rw [Int64.lt_iff_toInt_lt, toInt_width (Int.le_trans hmin hmax)]
      omega
    rw [if_neg hmoved, if_neg hmoved, if_pos hwidth]

/-- **A range measures its changes exactly if its span is a 64-bit integer.** The width of a
category that is accepted is the span of its range or the largest 64-bit integer, whichever is
smaller, and this is what the distance of a change inside the range is divided by. So the quotient
is the share of the range that was covered, with one for the whole range only, exactly if the width
has not been cut. -/
theorem measures_iff_span_fits (hd : Category.ofDecl decl = .ok d) (hr : d.range? = some r) :
    (r.Measures ↔ r.span ≤ Int64.maxValue.toInt) ∧
    r.width.toInt = min r.span Int64.maxValue.toInt ∧
    ∀ a b, r.contains a = true → r.contains b = true →
      (Change.mk (.int a) (.int b) (some r)).magnitude =
        if distance a b = 0 then .zero
        else (Binary32.ofInt (distance a b) / Binary32.ofInt r.width.toInt).min .one := by
  have hwidth := toInt_width (bounds_of_ofDecl hd hr)
  refine ⟨⟨fun hmeasures => ?_, fun hfits => ?_⟩, hwidth, fun a b => magnitude_in_range⟩
  · have hexact := hmeasures.width
    omega
  · exact measures_of_width (by omega)

/-- Frost goes down from minus one as far as integers go. -/
def frost : CategoryDecl := .numeric "Frost" ["night"] Int64.minValue (-1) (-1)

/-- Weather takes any integer. -/
def weather : CategoryDecl := .numeric "Weather" ["night"] Int64.minValue Int64.maxValue 0

/-- Frost has just the longest span that still fits; weather, with more than twice the span, is cut
to the same width. -/
theorem measures_iff_span_fits_frost : Range.Measures ⟨Int64.minValue, -1⟩ ∧
    ¬Range.Measures ⟨Int64.minValue, Int64.maxValue⟩ ∧
    Range.width ⟨Int64.minValue, -1⟩ = Range.width ⟨Int64.minValue, Int64.maxValue⟩ := by
  have hfrost :
      Category.ofDecl frost = .ok ⟨"Frost", .ofList ["night"], .numeric ⟨Int64.minValue, -1⟩ (-1)⟩ := rfl
  have hweather : Category.ofDecl weather =
    .ok ⟨"Weather", .ofList ["night"], .numeric ⟨Int64.minValue, Int64.maxValue⟩ 0⟩ := rfl
  obtain ⟨hmeasures, hwidth, _⟩ := measures_iff_span_fits hfrost rfl
  obtain ⟨hcut, hwidth', _⟩ := measures_iff_span_fits hweather rfl
  refine ⟨hmeasures.mpr (by decide), fun h => absurd (hcut.mp h) (by decide), ?_⟩
  rw [← Int64.toInt_inj, hwidth, hwidth']
  decide

/-- **Not every range measures its changes.** From the least integer to zero the weather covers half
of its range, and that weighs as much as a change over all of it. -/
theorem long_range_does_not_measure :
    (¬∀ (decl : CategoryDecl) (d : Category) (r : Range), Category.ofDecl decl = .ok d →
      d.range? = some r → r.Measures) ∧
    (Change.mk (.int Int64.minValue) (.int 0) (some ⟨Int64.minValue, Int64.maxValue⟩)).magnitude =
      .one := by
  refine ⟨fun hall => ?_, rfl⟩
  have hweather : Category.ofDecl weather =
    .ok ⟨"Weather", .ofList ["night"], .numeric ⟨Int64.minValue, Int64.maxValue⟩ 0⟩ := rfl
  have hwidth := (hall weather _ ⟨Int64.minValue, Int64.maxValue⟩ hweather rfl).width
  exact absurd hwidth (by decide)

end Narrative

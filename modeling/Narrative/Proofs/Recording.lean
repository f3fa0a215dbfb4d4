import Narrative.Proofs.Cast
import Narrative.Proofs.Pairing
import Narrative.Proofs.Typing

/-!
# `Proofs.Recording` — effects do the same on sheets that look the same

A path is imagined on a scratch layer, one action after the other, and taken on the cast, all
effects in a row. Both go through `recordAll`, on worlds of different types. What an effect does
depends only on the sheets that it finds: two worlds that show related sheets answer alike and go on
showing related sheets, for every relation that mutations respect. A list of effects may be cut
anywhere.

## Contents
- **Related worlds.** `World.Shows` and `World.Carries`; `recordAll_paired`.
- **Keys and weights.** `Memory.contains_encode` and `Memory.Capped`.
- **Likeness.** `World.Alike`, `alike_fresh`, `recordAll_alike`.
- **Pieces.** `recordAll_append`; `recordAll_path`: the path in a memory plays no part.
- **The cast.** `recordAll_cast`: effects change sheets and nothing else of a character.
-/

namespace Narrative
open Outcome

variable {ω ω' : Type} [World ω] [World ω'] {r : Registry}

/-! ## Related worlds -/

variable {R : Sheet → Sheet → Prop} {W : ω → ω' → Prop}

/-- A relation of worlds **carries** a relation of sheets if related worlds have the same
characters, with related sheets, and stay related when related sheets are set. -/
structure World.Carries (R : Sheet → Sheet → Prop) (W : ω → ω' → Prop) : Prop where
  sheets : ∀ {w v}, W w v → ∀ name, Option.Rel R (sheet? w name) (sheet? v name)
  set : ∀ {w v}, W w v → ∀ {name s t}, (sheet? w name).isSome → R s t →
    W (setSheet w name s) (setSheet v name t)

/-- Mutations **respect** a relation of sheets if they answer alike on related sheets and leave them
related. -/
def Registry.Respects (r : Registry) (R : Sheet → Sheet → Prop) : Prop :=
  ∀ s t, R s t → ∀ category subtype op operand,
    (s.mutate r category subtype op operand).Paired R (t.mutate r category subtype op operand)

/-- Two worlds **show** related sheets if every character has related sheets in both. -/
def World.Shows (R : Sheet → Sheet → Prop) (w : ω) (v : ω') : Prop :=
  ∀ name, Option.Rel R (sheet? w name) (sheet? v name)

/-- Where sheets are found where they were set, no more is needed to carry a relation. -/
theorem World.carries_shows [LawfulWorld ω] [LawfulWorld ω'] : Carries R (Shows R : ω → ω' → Prop) := by
  refine ⟨fun h => h, fun {w v} h {name s t} hs hst name' => ?_⟩
  have ht : (sheet? v name).isSome := by
    rcases rel_cases (h name) with ⟨hnone, _⟩ | ⟨_, _, _, hsome, _⟩
    · rw [hnone] at hs
      cases hs
    · rw [hsome]
      rfl
  rw [LawfulWorld.sheet?_setSheet w name name' s hs, LawfulWorld.sheet?_setSheet v name name' t ht]
  by_cases hn : name' = name
  · rw [if_pos hn, if_pos hn]
    exact .some hst
  · rw [if_neg hn, if_neg hn]
    exact h name'

namespace Registry

theorem enact_paired (hW : World.Carries R W) (hR : r.Respects R) {w : ω} {v : ω'} (h : W w v)
    (e : Effect) :
    (r.enact w e).Paired W (r.enact v e) := by
  rcases rel_cases (hW.sheets h e.character) with ⟨hw, hv⟩ | ⟨s, t, hw, hv, hst⟩
  · rw [enact_of_none hw, enact_of_none hv]
    exact Attempt.paired_error _ h
  · rw [enact_of_some hw, enact_of_some hv]
    exact (hR s t hst _ _ _ _).within fun s' t' h' => hW.set h (by rw [hw]; rfl) h'

/-- **A list of effects answers alike in related worlds**, and leaves them related. -/
theorem recordAll_paired (hW : World.Carries R W) (hR : r.Respects R) (es : List Effect)
    (m : Memory) {w : ω} {v : ω'} (h : W w v) :
    (r.recordAll es m w).Paired W (r.recordAll es m v) := by
  induction es generalizing m w v with
  | nil => exact Attempt.paired_ok m h
  | cons e es ih =>
    rw [recordAll, recordAll]
    exact (enact_paired hW hR h e).andThen fun change _ _ h' => ih _ h'

end Registry

/-! ## Keys and weights -/

/-- A change is recorded under the key of its target, unless nothing moved. -/
theorem Memory.contains_encode {m : Memory} {t : Target} {change : Change} {key : String} :
    (m.encode t change).vector.weights.contains key = true ↔
      m.vector.weights.contains key = true ∨ change.isNoop = false ∧ key = t.memoryKey := by
  unfold Memory.encode
  split
  · next hnoop =>
      exact ⟨.inl, fun h => h.elim id fun hmoved => absurd hnoop (Bool.eq_false_iff.mp hmoved.1)⟩
  · next hmoved =>
    rw [Bool.not_eq_true] at hmoved
    unfold SortedMap.contains
    rw [Weights.get?_addCapped]
    by_cases hkey : key = t.memoryKey
    · rw [if_pos hkey]
      exact ⟨fun _ => .inr ⟨hmoved, hkey⟩, fun _ => rfl⟩
    · rw [if_neg hkey]
      exact ⟨.inl, fun h => h.elim id fun hnew => absurd hnew.2 hkey⟩

/-- A memory is **capped** if it has no weight above the largest one that a key may have. -/
def Memory.Capped (m : Memory) : Prop :=
  ∀ key w, m.vector.weights.get? key = some w → maxKeyWeight.lt w = false

theorem Memory.capped_new (path : List Uid) : (Memory.new path).Capped := fun _ _ h => nomatch h

/-- However often the same attribute moves, its weight does not exceed the cap. -/
theorem Memory.Capped.encode {m : Memory} (h : m.Capped) (t : Target) (change : Change) :
    (m.encode t change).Capped := by
  intro key w hw
  unfold Memory.encode at hw
  split at hw
  · exact h key w hw
  · rw [Weights.get?_addCapped] at hw
    split at hw
    · cases hw
      exact Binary32.lt_min _ (by decide)
    · exact h key w hw

/-! ## Likeness -/

/-- Two worlds **look alike** if every character has the same sheet in both. -/
def World.Alike (w : ω) (v : ω') : Prop := ∀ name, sheet? w name = sheet? v name

/-- A scratch layer without writes looks like the world below it. -/
theorem alike_fresh (w : ω) : World.Alike (Scratch.fresh w) w := fun _ => rfl

namespace Registry

theorem respects_eq (r : Registry) : r.Respects (· = ·) := by
  intro s t h category subtype op operand
  subst h
  exact ⟨rfl, rfl⟩

/-- A list of effects answers alike in worlds that look alike, and leaves them alike. -/
theorem recordAll_alike [LawfulWorld ω] [LawfulWorld ω'] {w : ω} {v : ω'} (h : World.Alike w v)
    (es : List Effect) (m : Memory) : (r.recordAll es m w).result = (r.recordAll es m v).result ∧
      World.Alike (r.recordAll es m w).state (r.recordAll es m v).state := by
  have hshows : World.Shows (· = ·) w v := fun name => rel_eq.mpr (h name)
  have hpaired := recordAll_paired World.carries_shows r.respects_eq es m hshows
  exact ⟨hpaired.result, fun name => rel_eq.mp (hpaired.state name)⟩

/-! ## Pieces -/

/-- A list of effects may be cut anywhere. -/
theorem recordAll_append (es fs : List Effect) (m : Memory) (w : ω) :
    r.recordAll (es ++ fs) m w = (r.recordAll es m w).andThen (r.recordAll fs) := by
  induction es generalizing m w with
  | nil => rfl
  | cons e es ih =>
    rw [List.cons_append, recordAll, recordAll, Attempt.andThen_assoc]
    exact congrArg _ (funext fun change => funext fun w => ih _ w)

/-- The path in a memory plays no part in what is recorded. -/
theorem recordAll_path (es : List Effect) (m : Memory) (path : List Uid) (w : ω) :
    r.recordAll es { m with path := path } w =
      (r.recordAll es m w).andThen fun m w => .ok { m with path := path } w := by
  induction es generalizing m w with
  | nil => rfl
  | cons e es ih =>
    rw [recordAll, recordAll, Attempt.andThen_assoc]
    refine congrArg _ (funext fun change => funext fun w => ?_)
    -- a change is encoded into the vector, whatever the path
    have hencode : Memory.encode { m with path := path } e.toTarget change =
        { m.encode e.toTarget change with path := path } := by
      unfold Memory.encode
      split <;> rfl
    rw [hencode, ih]

/-- What is recorded keeps the path. -/
theorem path_of_recordAll {es : List Effect} {m m' : Memory} {w : ω}
    (h : (r.recordAll es m w).result = .ok m') :
    m'.path = m.path := by
  have hpath := recordAll_path (r := r) es m m.path w
  rw [show { m with path := m.path } = m from rfl] at hpath
  rw [hpath] at h
  obtain ⟨m₀, _, h⟩ := andThen_result_ok.mp h
  cases h
  rfl

/-! ## The cast -/

/-- An effect changes the sheet of a character and nothing else of anyone. -/
theorem enact_cast {cast : Cast} {name : String} {c : Character} (hc : cast.get? name = some c)
    (e : Effect) :
    ∃ sheet, (r.enact cast e).state.get? name = some { c with sheet := sheet } := by
  cases ht : sheet? cast e.character with
  | none => rw [enact_of_none ht]; exact ⟨c.sheet, hc⟩
  | some s =>
    rw [enact_of_some ht, state_within, Cast.get?_setSheet]
    by_cases hn : name = e.character
    · rw [if_pos hn, ← hn, hc]
      exact ⟨_, rfl⟩
    · rw [if_neg hn]
      exact ⟨c.sheet, hc⟩

/-- Effects change the sheets of characters and nothing else of them. -/
theorem recordAll_cast (es : List Effect) (m : Memory) {cast : Cast} {name : String} {c : Character}
    (hc : cast.get? name = some c) :
    ∃ sheet, (r.recordAll es m cast).state.get? name = some { c with sheet := sheet } := by
  refine recordAll_keeps
    (I := fun cast : Cast => ∃ sheet, cast.get? name = some { c with sheet := sheet }) ?_ es m
    ⟨c.sheet, hc⟩
  rintro e cast ⟨_, h⟩
  exact enact_cast h e

end Registry
end Narrative

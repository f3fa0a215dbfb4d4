import Narrative.Memory

/-!
# `Proofs.Fingerprint` — a path key tells which path was taken

A path key is the uids of a path in decimal, with colons between them and brackets around. No digit
is a colon, so between the brackets the colons show where one uid ends and the next begins, however
many digits they have. Every uid has a digit at least, so a path without uids is told from all
others, though cutting an empty text at colons leaves one part and not none. And a number is told by
its digits.

## Contents
- **Uids.** `uidTexts`, with `uidTexts_inj`: uids are told apart by their digits.
- **Parts.** `toList_pathKey`, and `parts_uidTexts`: the texts of the uids come back.
- **The main result** `pathKey_eq_iff`.
-/

namespace Narrative

namespace Memory

variable {path path' : List Uid}

/-! ## Uids -/

/-- The digits of the uids of a path. -/
def uidTexts (path : List Uid) : List (List Char) := path.map fun uid => Nat.toDigits 10 uid.toNat

theorem toDigits_inj {m n : Nat} (h : Nat.toDigits 10 m = Nat.toDigits 10 n) : m = n :=
  calc m = Nat.ofDigitChars 10 (Nat.toDigits 10 m) 0 := Nat.ofDigitChars_ten_toDigits.symm
    _ = Nat.ofDigitChars 10 (Nat.toDigits 10 n) 0 := by rw [h]
    _ = n := Nat.ofDigitChars_ten_toDigits

theorem uidTexts_inj (h : uidTexts path = uidTexts path') : path = path' := by
  refine (List.map_inj_right ?_).mp h
  intro a b hab
  apply UInt32.toNat_inj.mp
  exact toDigits_inj hab

theorem colon_notMem_uidTexts {text : List Char} (h : text ∈ uidTexts path) : ':' ∉ text := by
  obtain ⟨uid, _, rfl⟩ := List.mem_map.mp h
  intro hcolon
  have hdigit : ':'.isDigit = true := Nat.isDigit_of_mem_toDigits (by decide) (by decide) hcolon
  exact absurd hdigit (by decide)

theorem ne_nil_of_mem_uidTexts {text : List Char} (h : text ∈ uidTexts path) : text ≠ [] := by
  obtain ⟨uid, _, rfl⟩ := List.mem_map.mp h
  exact Nat.toDigits_ne_nil

/-! ## Parts -/

theorem toList_pathKey (m : Memory) :
    m.pathKey.toList = '[' :: ([':'].intercalate (uidTexts m.path) ++ [']']) := by
  have htexts : (m.path.map toString).map String.toList = uidTexts m.path := by
    rw [List.map_map]
    apply List.map_congr_left
    intro uid _
    exact Nat.toList_repr
  simp [pathKey, String.toList_intercalate, htexts]

/-- **Cut at the colons, the texts of the uids come back**, apart from the empty part that no uids
at all leave. -/
theorem parts_uidTexts (path : List Uid) :
    (([':'].intercalate (uidTexts path)).splitOn ':').filter (· ≠ []) = uidTexts path := by
  cases path with
  | nil => rfl
  | cons uid path =>
    have hplain : ∀ text ∈ uidTexts (uid :: path), ':' ∉ text :=
      fun _ htext => colon_notMem_uidTexts htext
    rw [List.splitOn_intercalate ':' hplain (List.cons_ne_nil _ _)]
    apply List.filter_eq_self.mpr
    intro text htext
    simpa using ne_nil_of_mem_uidTexts htext

/-! ## The main result -/

/-- **A path key identifies its path.** Memories have the same path key exactly if their paths are
the same, whatever uids these hold and however many, also none. -/
theorem pathKey_eq_iff (m m' : Memory) : m.pathKey = m'.pathKey ↔ m.path = m'.path := by
  constructor
  · intro h
    have hlists := congrArg String.toList h
    rw [toList_pathKey, toList_pathKey] at hlists
    have hinner : [':'].intercalate (uidTexts m.path) = [':'].intercalate (uidTexts m'.path) :=
      List.append_cancel_right (List.cons.inj hlists).2
    have htexts : uidTexts m.path = uidTexts m'.path := by
      rw [← parts_uidTexts m.path, ← parts_uidTexts m'.path, hinner]
    exact uidTexts_inj htexts
  · intro h
    unfold pathKey
    rw [h]

/-- Where the digits are the same, the colon is not, and where there are none, no uid is. -/
example : Memory.pathKey ⟨[1, 23], .empty⟩ ≠ Memory.pathKey ⟨[12, 3], .empty⟩ ∧
    Memory.pathKey ⟨[], .empty⟩ ≠ Memory.pathKey ⟨[0], .empty⟩ := by decide

end Memory
end Narrative

/-!
# `Narrative.Data.SortedMap` — finite maps in key order

A finite map kept as its list of entries, strictly ascending by key. Two maps with the same
entries are equal, the entries are always met in key order, and nothing depends on the history
of insertions.

## Contents
- **The type.** `SortedMap κ β`, with `entries`, `keys` and `values` in key order.
- **Operations.** `get?`, `contains`, `insert`, `erase`, `modify`, `filter`, `map`, `ofList`.
- **The view.** One lemma per operation says what it does to `get?`; `ext` turns equal look-ups
  into equal maps.
- **Lists of entries.** `mem_keys`, `nodup_keys`; `ofList_entries`: a map is the map of its entries.
- **Sets.** `SortedSet κ` is a map to `Unit`.
-/

namespace Narrative

/-- A finite map from `κ` to `β`: its entries, strictly ascending by key. -/
structure SortedMap (κ β : Type) [Ord κ] where
  /-- The entries in key order. -/
  entries : List (κ × β)
  /-- Every key is below all later ones. -/
  ascending : entries.Pairwise fun a b => compare a.1 b.1 = .lt

namespace SortedMap

variable {κ β γ : Type} [Ord κ]

instance [DecidableEq κ] [DecidableEq β] : DecidableEq (SortedMap κ β) := fun m n =>
  decidable_of_iff (m.entries = n.entries) ⟨fun h => by cases m; cases n; simp_all, fun h => h ▸ rfl⟩

/-! ## Entry lists -/

/-- The value at `k` in an entry list. -/
def lookup (k : κ) : List (κ × β) → Option β
  | [] => none
  | (k', b) :: rest => if compare k k' = .eq then some b else lookup k rest

/-- Puts `b` at `k`, before the first larger key and in place of an equal one. -/
def put (k : κ) (b : β) : List (κ × β) → List (κ × β)
  | [] => [(k, b)]
  | (k', b') :: rest =>
    match compare k k' with
    | .lt => (k, b) :: (k', b') :: rest
    | .eq => (k, b) :: rest
    | .gt => (k', b') :: put k b rest

theorem mem_put {k : κ} {b : β} {e : κ × β} {l : List (κ × β)} (h : e ∈ put k b l) :
    e = (k, b) ∨ e ∈ l := by
  induction l with
  | nil => simpa [put] using h
  | cons hd tl ih =>
    rw [put] at h
    split at h
    · simpa using h
    · rcases List.mem_cons.1 h with h | h
      · exact .inl h
      · exact .inr (List.mem_cons_of_mem _ h)
    · rcases List.mem_cons.1 h with h | h
      · exact .inr (h ▸ List.mem_cons_self)
      · exact (ih h).imp id (List.mem_cons_of_mem _)

theorem ascending_put [Std.TransOrd κ] (k : κ) (b : β) {l : List (κ × β)}
    (h : l.Pairwise fun a b => compare a.1 b.1 = .lt) :
    (put k b l).Pairwise fun a b => compare a.1 b.1 = .lt := by
  induction l with
  | nil => simp [put]
  | cons hd tl ih =>
    obtain ⟨hhd, htl⟩ := List.pairwise_cons.1 h
    rw [put]
    split
    · next hlt =>
      refine List.pairwise_cons.2 ⟨fun e he => ?_, h⟩
      rcases List.mem_cons.1 he with he | he
      · exact he ▸ hlt
      · exact Std.TransCmp.lt_trans hlt (hhd e he)
    · next heq =>
      exact List.pairwise_cons.2 ⟨fun e he => Std.TransCmp.lt_of_eq_of_lt heq (hhd e he), htl⟩
    · next hgt =>
      refine List.pairwise_cons.2 ⟨fun e he => ?_, ih htl⟩
      rcases mem_put he with he | he
      · exact he ▸ Std.OrientedCmp.lt_of_gt hgt
      · exact hhd e he

/-! ## Reading -/

/-- The map without entries. -/
def empty : SortedMap κ β := ⟨[], .nil⟩

instance : EmptyCollection (SortedMap κ β) := ⟨empty⟩
instance : Inhabited (SortedMap κ β) := ⟨empty⟩

/-- The value at `k`. -/
def get? (m : SortedMap κ β) (k : κ) : Option β := lookup k m.entries

/-- Whether `k` has a value. -/
def contains (m : SortedMap κ β) (k : κ) : Bool := (m.get? k).isSome

/-- The keys, ascending. -/
def keys (m : SortedMap κ β) : List κ := m.entries.map (·.1)

/-- The values in the order of their keys. -/
def values (m : SortedMap κ β) : List β := m.entries.map (·.2)

/-- The number of entries. -/
def size (m : SortedMap κ β) : Nat := m.entries.length

/-- Whether there are no entries. -/
def isEmpty (m : SortedMap κ β) : Bool := m.entries.isEmpty

/-! ## Writing -/

/-- Keeps the entries on which `keep` holds. -/
def filter (keep : κ → β → Bool) (m : SortedMap κ β) : SortedMap κ β where
  entries := m.entries.filter fun e => keep e.1 e.2
  ascending := m.ascending.sublist List.filter_sublist

/-- Applies `f` to every value. -/
def map (f : β → γ) (m : SortedMap κ β) : SortedMap κ γ where
  entries := m.entries.map fun e => (e.1, f e.2)
  ascending := List.pairwise_map.2 m.ascending

/-- Removes the entry at `k`, if there is one. -/
def erase (m : SortedMap κ β) (k : κ) : SortedMap κ β :=
  m.filter fun k' _ => compare k k' != .eq

variable [Std.TransOrd κ]

/-- Puts `b` at `k`, in place of the value that `k` had. -/
def insert (m : SortedMap κ β) (k : κ) (b : β) : SortedMap κ β where
  entries := put k b m.entries
  ascending := ascending_put k b m.ascending

/-- Replaces the value at `k` by its image under `f`, if there is one. -/
def modify (m : SortedMap κ β) (k : κ) (f : β → β) : SortedMap κ β :=
  match m.get? k with
  | none => m
  | some b => m.insert k (f b)

/-- The map of a list of entries; of two entries with one key the later stays. -/
def ofList (l : List (κ × β)) : SortedMap κ β := l.foldl (fun m e => m.insert e.1 e.2) empty

/-! ## What each operation does to `get?` -/

omit [Std.TransOrd κ] in
@[simp] theorem get?_empty (k : κ) : (empty : SortedMap κ β).get? k = none := rfl

omit [Std.TransOrd κ] in
theorem lookup_put [Std.LawfulEqOrd κ] [DecidableEq κ] (k k' : κ) (b : β) (l : List (κ × β)) :
    lookup k' (put k b l) = if k' = k then some b else lookup k' l := by
  induction l with
  | nil => simp [put, lookup, Std.LawfulEqCmp.compare_eq_iff_eq]
  | cons hd tl ih =>
    obtain ⟨k₀, b₀⟩ := hd
    rw [put]
    split
    · simp [lookup, Std.LawfulEqCmp.compare_eq_iff_eq]
    · next heq =>
      obtain rfl := Std.LawfulEqCmp.compare_eq_iff_eq.1 heq
      by_cases h : k' = k <;> simp [lookup, Std.LawfulEqCmp.compare_eq_iff_eq, h]
    · next hgt =>
      have hne : k ≠ k₀ := fun h => by
        subst h
        simp [Std.ReflCmp.compare_self] at hgt
      by_cases h : k' = k₀
      · subst h
        simp [lookup, hne.symm]
      · simp [lookup, Std.LawfulEqCmp.compare_eq_iff_eq, h, ih]

@[simp] theorem get?_insert [Std.LawfulEqOrd κ] [DecidableEq κ] (m : SortedMap κ β) (k k' : κ) (b : β) :
    (m.insert k b).get? k' = if k' = k then some b else m.get? k' := by
  simp only [get?, insert, lookup_put]

omit [Std.TransOrd κ] in
theorem lookup_eq_some_iff [Std.LawfulEqOrd κ] {k : κ} {b : β} {l : List (κ × β)}
    (h : l.Pairwise fun a b => compare a.1 b.1 = .lt) : lookup k l = some b ↔ (k, b) ∈ l := by
  induction l with
  | nil => simp [lookup]
  | cons hd tl ih =>
    obtain ⟨k₀, b₀⟩ := hd
    obtain ⟨hhd, htl⟩ := List.pairwise_cons.1 h
    by_cases hk : k = k₀
    · subst hk
      have hnot : ∀ x, (k, x) ∉ tl := fun x hx => by
        simpa [Std.ReflCmp.compare_self] using hhd _ hx
      simp [lookup, Std.ReflCmp.compare_self, hnot, eq_comm]
    · simp [lookup, Std.LawfulEqCmp.compare_eq_iff_eq, hk, ih htl]

omit [Std.TransOrd κ] in
/-- A value is found exactly where an entry holds it. -/
theorem get?_eq_some_iff [Std.LawfulEqOrd κ] {m : SortedMap κ β} {k : κ} {b : β} :
    m.get? k = some b ↔ (k, b) ∈ m.entries :=
  lookup_eq_some_iff m.ascending

omit [Std.TransOrd κ] in
@[simp] theorem get?_map (f : β → γ) (m : SortedMap κ β) (k : κ) :
    (m.map f).get? k = (m.get? k).map f := by
  simp only [get?, map]
  induction m.entries with
  | nil => rfl
  | cons hd tl ih => by_cases h : compare k hd.1 = .eq <;> simp [lookup, h, ih]

omit [Std.TransOrd κ] in
@[simp] theorem get?_erase [Std.LawfulEqOrd κ] [DecidableEq κ] (m : SortedMap κ β) (k k' : κ) :
    (m.erase k).get? k' = if k' = k then none else m.get? k' := by
  simp only [get?, erase, filter]
  induction m.entries with
  | nil => simp [lookup]
  | cons hd tl ih =>
    obtain ⟨k₀, b₀⟩ := hd
    by_cases hk : k = k₀
    · subst hk
      simp only [List.filter_cons, Std.ReflCmp.compare_self, bne_self_eq_false, Bool.false_eq_true,
        ↓reduceIte, ih, lookup, Std.LawfulEqCmp.compare_eq_iff_eq]
      split <;> simp_all
    · by_cases hk' : k' = k₀
      · subst hk'
        simp [lookup, Std.LawfulEqCmp.compare_eq_iff_eq, hk, Ne.symm hk]
      · simp [lookup, Std.LawfulEqCmp.compare_eq_iff_eq, hk, hk', ih]

omit [Std.TransOrd κ] in
theorem lookup_filter [Std.LawfulEqOrd κ] [DecidableEq κ] (keep : κ → β → Bool) (k : κ)
    {l : List (κ × β)} (h : l.Pairwise fun a b => compare a.1 b.1 = .lt) :
    lookup k (l.filter fun e => keep e.1 e.2) = (lookup k l).filter (keep k) := by
  induction l with
  | nil => rfl
  | cons hd tl ih =>
    obtain ⟨k₀, b₀⟩ := hd
    obtain ⟨hhd, htl⟩ := List.pairwise_cons.1 h
    by_cases hk : k = k₀
    · subst hk
      have hnone : lookup k tl = none := by
        cases hl : lookup k tl with
        | none => rfl
        | some b => simpa [Std.ReflCmp.compare_self] using hhd _ ((lookup_eq_some_iff htl).1 hl)
      by_cases hb : keep k b₀ = true <;>
        simp [lookup, Std.ReflCmp.compare_self, Option.filter, hb, ih htl, hnone]
    · by_cases hb : keep k₀ b₀ = true <;>
        simp [lookup, Std.LawfulEqCmp.compare_eq_iff_eq, hb, hk, ih htl]

omit [Std.TransOrd κ] in
@[simp] theorem get?_filter [Std.LawfulEqOrd κ] [DecidableEq κ] (keep : κ → β → Bool)
    (m : SortedMap κ β) (k : κ) :
    (m.filter keep).get? k = (m.get? k).filter (keep k) :=
  lookup_filter keep k m.ascending

@[simp] theorem get?_modify [Std.LawfulEqOrd κ] [DecidableEq κ] (m : SortedMap κ β) (k k' : κ)
    (f : β → β) :
    (m.modify k f).get? k' = if k' = k then (m.get? k).map f else m.get? k' := by
  unfold modify
  cases h : m.get? k with
  | none => by_cases hk : k' = k <;> simp [hk, h]
  | some b => simp only [get?_insert, Option.map_some]

/-! ## Extensionality -/

omit [Std.TransOrd κ] in
theorem lookup_eq_none_of_below [Std.LawfulEqOrd κ] {k : κ} {l : List (κ × β)}
    (h : ∀ e ∈ l, compare k e.1 = .lt) : lookup k l = none := by
  induction l with
  | nil => rfl
  | cons hd tl ih =>
    have hhd := h hd List.mem_cons_self
    simp [lookup, hhd, ih fun e he => h e (List.mem_cons_of_mem _ he)]

theorem eq_of_lookup_eq [Std.LawfulEqOrd κ] {l₁ l₂ : List (κ × β)}
    (h₁ : l₁.Pairwise fun a b => compare a.1 b.1 = .lt)
    (h₂ : l₂.Pairwise fun a b => compare a.1 b.1 = .lt)
    (h : ∀ k, lookup k l₁ = lookup k l₂) : l₁ = l₂ := by
  induction l₁ generalizing l₂ with
  | nil =>
    cases l₂ with
    | nil => rfl
    | cons e _ => simpa [lookup, Std.ReflCmp.compare_self] using h e.1
  | cons e₁ t₁ ih =>
    obtain ⟨k₁, b₁⟩ := e₁
    cases l₂ with
    | nil => simpa [lookup, Std.ReflCmp.compare_self] using h k₁
    | cons e₂ t₂ =>
      obtain ⟨k₂, b₂⟩ := e₂
      obtain ⟨hd₁, tl₁⟩ := List.pairwise_cons.1 h₁
      obtain ⟨hd₂, tl₂⟩ := List.pairwise_cons.1 h₂
      have hk : compare k₁ k₂ = .eq := by
        cases hc : compare k₁ k₂ with
        | eq => rfl
        | lt =>
          have hnone : lookup k₁ ((k₂, b₂) :: t₂) = none := lookup_eq_none_of_below fun e he => by
            rcases List.mem_cons.1 he with he | he
            · exact he ▸ hc
            · exact Std.TransCmp.lt_trans hc (hd₂ e he)
          rw [← h k₁] at hnone
          simp [lookup, Std.ReflCmp.compare_self] at hnone
        | gt =>
          have hlt := Std.OrientedCmp.lt_of_gt hc
          have hnone : lookup k₂ ((k₁, b₁) :: t₁) = none := lookup_eq_none_of_below fun e he => by
            rcases List.mem_cons.1 he with he | he
            · exact he ▸ hlt
            · exact Std.TransCmp.lt_trans hlt (hd₁ e he)
          rw [h k₂] at hnone
          simp [lookup, Std.ReflCmp.compare_self] at hnone
      obtain rfl := Std.LawfulEqCmp.compare_eq_iff_eq.1 hk
      have hb : b₁ = b₂ := by simpa [lookup, Std.ReflCmp.compare_self] using h k₁
      subst hb
      rw [ih tl₁ tl₂ fun k => ?_]
      by_cases hkk : compare k k₁ = .eq
      · obtain rfl := Std.LawfulEqCmp.compare_eq_iff_eq.1 hkk
        rw [lookup_eq_none_of_below hd₁, lookup_eq_none_of_below hd₂]
      · simpa [lookup, hkk] using h k

/-- Maps that give every key the same value are equal. -/
theorem ext [Std.LawfulEqOrd κ] {m n : SortedMap κ β} (h : ∀ k, m.get? k = n.get? k) : m = n := by
  obtain ⟨l₁, h₁⟩ := m
  obtain ⟨l₂, h₂⟩ := n
  obtain rfl := eq_of_lookup_eq h₁ h₂ h
  rfl

/-! ## Lists of entries -/

omit [Std.TransOrd κ] in
theorem mem_keys [Std.LawfulEqOrd κ] {m : SortedMap κ β} {k : κ} : k ∈ m.keys ↔ m.contains k = true := by
  unfold keys contains
  rw [List.mem_map, Option.isSome_iff_exists]
  constructor
  · rintro ⟨e, he, rfl⟩
    exact ⟨e.2, get?_eq_some_iff.mpr he⟩
  · rintro ⟨b, hb⟩
    exact ⟨(k, b), get?_eq_some_iff.mp hb, rfl⟩

omit [Std.TransOrd κ] in
/-- Keys ascend, so none comes twice. -/
theorem nodup_keys [Std.LawfulEqOrd κ] (m : SortedMap κ β) : m.keys.Nodup := by
  refine List.pairwise_map.mpr (m.ascending.imp fun {a b} hlt heq => ?_)
  have hself : compare b.1 b.1 = .eq := Std.ReflCmp.compare_self
  rw [heq, hself] at hlt
  cases hlt

/-- What belongs after all entries is put there. -/
theorem put_of_above {k : κ} {b : β} {l : List (κ × β)} (h : ∀ e ∈ l, compare e.1 k = .lt) :
    put k b l = l ++ [(k, b)] := by
  induction l with
  | nil => rfl
  | cons hd tl ih =>
    have hgt : compare k hd.1 = .gt := Std.OrientedCmp.gt_of_lt (h hd List.mem_cons_self)
    rw [put, hgt]
    exact congrArg (hd :: ·) (ih fun e he => h e (List.mem_cons_of_mem _ he))

theorem entries_foldl_insert {m : SortedMap κ β} {l : List (κ × β)}
    (h : (m.entries ++ l).Pairwise fun a b => compare a.1 b.1 = .lt) :
    (l.foldl (fun m e => m.insert e.1 e.2) m).entries = m.entries ++ l := by
  induction l generalizing m with
  | nil => exact (List.append_nil _).symm
  | cons e l ih =>
    have hput : (m.insert e.1 e.2).entries = m.entries ++ [e] :=
      put_of_above fun e' he' => (List.pairwise_append.mp h).2.2 e' he' e List.mem_cons_self
    rw [List.append_cons, ← hput] at h
    rw [List.foldl_cons, ih h, hput, List.append_assoc, List.singleton_append]

/-- A map is the map of its entries. -/
theorem ofList_entries (m : SortedMap κ β) : ofList m.entries = m := by
  obtain ⟨entries, hentries⟩ := m
  have hfold := entries_foldl_insert (m := empty) (l := entries) hentries
  unfold ofList
  generalize List.foldl _ _ _ = n at hfold
  obtain ⟨_, _⟩ := n
  cases hfold
  rfl

end SortedMap

/-- A finite set: a map that gives each member the one value of `Unit`. -/
abbrev SortedSet (κ : Type) [Ord κ] := SortedMap κ Unit

namespace SortedSet

variable {κ : Type} [Ord κ] [Std.TransOrd κ]

/-- The set with `k` added. -/
def add (s : SortedSet κ) (k : κ) : SortedSet κ := s.insert k ()

/-- The set with every member of `ks` added. -/
def addAll (s : SortedSet κ) (ks : List κ) : SortedSet κ := ks.foldl add s

/-- The members of a list. -/
def ofList (ks : List κ) : SortedSet κ := addAll SortedMap.empty ks

end SortedSet

end Narrative

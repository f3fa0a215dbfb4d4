import Narrative.Action

/-!
# `Proofs.Keys` — memory keys can be taken apart again

A memory key is made of three names with colons between them, and it is read back in three ways: the
category and the subtype by their place between the colons, the character by a test on how the key
begins. All three invert the making of a key as long as no name in it holds a colon itself; the
names may be empty, begin like one another, or occur in two places.

## Contents
- **Names.** `Plain` names, and what `checkName` says about them.
- **Splitting.** `split_plain`, `split_append`, `parts_memory`.
- **Reading back.** `category?_memory`, `subtype?_memory`, `belongsTo_memory`.
- **Targets.** `Target.Plain`; `memoryKey_injective`, and which keys the tests of the removals keep.
- **All readings.** The main result `memoryKey_reads_back`.
-/

namespace Narrative

namespace Key

/-! ## Names -/

/-- A name is **plain** if it may be part of a key: it does not hold the separator. -/
def Plain (name : String) : Prop := separator ∉ name.toList

instance (name : String) : Decidable (Plain name) :=
  inferInstanceAs (Decidable (separator ∉ name.toList))

variable {name character category subtype : String}

theorem checkName_eq_ok : checkName name = .ok () ↔ Plain name := by
  unfold checkName Plain
  by_cases h : separator ∈ name.toList
  · simp [h]
  · simp [h]

/-! ## Splitting -/

theorem split_plain {cs : List Char} (h : separator ∉ cs) : split cs = [cs] := by
  induction cs with
  | nil => rfl
  | cons c cs ih =>
    rw [List.mem_cons, not_or] at h
    rw [split, if_neg (Ne.symm h.1), ih h.2]

/-- The first separator ends the first part. -/
theorem split_append {cs : List Char} (h : separator ∉ cs) (rest : List Char) :
    split (cs ++ separator :: rest) = cs :: split rest := by
  induction cs with
  | nil =>
    rw [List.nil_append, split, if_pos rfl]
  | cons c cs ih =>
    rw [List.mem_cons, not_or] at h
    rw [List.cons_append, split, if_neg (Ne.symm h.1), ih h.2]

theorem toList_join (a b : String) : (join a b).toList = a.toList ++ separator :: b.toList := by
  simp [join, Char.toString]

theorem toList_memory (character category subtype : String) :
    (memory character category subtype).toList =
    character.toList ++ separator :: (category.toList ++ separator :: subtype.toList) := by
  rw [memory, toList_join, toList_join, List.append_assoc, List.cons_append]

/-- The parts of a key are the names that it was made of. -/
theorem parts_memory (hn : Plain character) (hc : Plain category) (hs : Plain subtype) :
    parts (memory character category subtype) = [character, category, subtype] := by
  unfold parts
  rw [toList_memory, split_append hn, split_append hc, split_plain hs]
  simp

/-! ## Reading back -/

theorem category?_memory (hn : Plain character) (hc : Plain category) (hs : Plain subtype) :
    category? (memory character category subtype) = some category := by
  rw [category?, parts_memory hn hc hs]
  rfl

theorem subtype?_memory (hn : Plain character) (hc : Plain category) (hs : Plain subtype) :
    subtype? (memory character category subtype) = some subtype := by
  rw [subtype?, parts_memory hn hc hs]
  rfl

/-- To begin with a name and the separator is to be joined of that name and a rest. -/
theorem belongsTo_iff_join {key : String} :
    belongsTo key name = true ↔ ∃ rest, key = join name rest := by
  unfold belongsTo
  rw [List.isPrefixOf_iff_prefix, toList_join, String.toList_empty]
  constructor
  · rintro ⟨rest, hrest⟩
    refine ⟨String.ofList rest, String.toList_inj.mp ?_⟩
    rw [toList_join, String.toList_ofList, ← hrest, List.append_assoc, List.singleton_append]
  · rintro ⟨rest, rfl⟩
    rw [toList_join, List.append_cons name.toList separator rest.toList]
    exact List.prefix_append _ _

/-- A key begins with a name and the separator exactly if that is the name of its character: the
separator tells a name from a longer one that begins alike. -/
theorem belongsTo_memory (hn : Plain character) (h : Plain name) :
    belongsTo (memory character category subtype) name = true ↔ name = character := by
  unfold belongsTo
  rw [toList_join, toList_memory, List.isPrefixOf_iff_prefix, String.toList_empty]
  constructor
  · rintro ⟨rest, hrest⟩
    rw [List.append_assoc, List.singleton_append] at hrest
    -- both sides are cut at their first separator
    have hsplit := congrArg split hrest
    rw [split_append h, split_append hn] at hsplit
    have hlists : name.toList = character.toList := (List.cons.inj hsplit).1
    exact String.toList_inj.mp hlists
  · intro heq
    subst heq
    rw [List.append_cons name.toList separator (category.toList ++ separator :: subtype.toList)]
    exact List.prefix_append _ _

end Key

/-! ## Targets -/

namespace Target

/-- A target is **plain** if its three names are. -/
structure Plain (t : Target) : Prop where
  character : Key.Plain t.character
  category : Key.Plain t.category
  subtype : Key.Plain t.subtype

variable {t u : Target}

/-- Different plain targets are remembered under different keys. -/
theorem memoryKey_injective (ht : t.Plain) (hu : u.Plain) (h : t.memoryKey = u.memoryKey) : t = u := by
  have hparts : [t.character, t.category, t.subtype] = [u.character, u.category, u.subtype] := by
    have hkeys := congrArg Key.parts h
    unfold memoryKey at hkeys
    rwa [Key.parts_memory ht.character ht.category ht.subtype,
      Key.parts_memory hu.character hu.category hu.subtype] at hkeys
  cases t
  cases u
  simp_all

/-! What the removals keep of a memory: each tests the keys as text, and hits those of its targets
only. -/

theorem kept_by_category (ht : t.Plain) (category : String) :
    (Key.category? t.memoryKey != some category) = true ↔ t.category ≠ category := by
  have hkey : Key.category? t.memoryKey = some t.category :=
    Key.category?_memory ht.character ht.category ht.subtype
  rw [hkey]
  simp

theorem kept_by_subtype (ht : t.Plain) (category subtype : String) :
    (Key.category? t.memoryKey != some category || Key.subtype? t.memoryKey != some subtype) = true ↔
      ¬(t.category = category ∧ t.subtype = subtype) := by
  have hcategory : Key.category? t.memoryKey = some t.category :=
    Key.category?_memory ht.character ht.category ht.subtype
  have hsubtype : Key.subtype? t.memoryKey = some t.subtype :=
    Key.subtype?_memory ht.character ht.category ht.subtype
  rw [hcategory, hsubtype, Decidable.not_and_iff_or_not]
  simp

theorem kept_by_character (ht : t.Plain) {name : String} (h : Key.Plain name) :
    (!Key.belongsTo t.memoryKey name) = true ↔ t.character ≠ name := by
  have hbelongs : Key.belongsTo t.memoryKey name = true ↔ name = t.character :=
    Key.belongsTo_memory ht.character h
  rw [Bool.not_eq_true', ← Bool.not_eq_true, hbelongs]
  exact not_congr eq_comm

/-! ## All readings -/

/-- **Memory keys can be read back.** Take three names that `checkName` accepts; apart from that
they may be any texts, also empty ones, or ones that begin alike or occur in two places. From the
key of the attribute that they name, the category and the subtype come back. The key begins with an
accepted name and the separator exactly if that is the name of the character, by the test of the
removals and as a text. And no other three accepted names have the same key. -/
theorem memoryKey_reads_back
    (ht : ∀ name ∈ [t.character, t.category, t.subtype], Key.checkName name = .ok ()) :
    Key.category? t.memoryKey = some t.category ∧ Key.subtype? t.memoryKey = some t.subtype ∧
    (∀ name, Key.checkName name = .ok () → (Key.belongsTo t.memoryKey name = true ↔ name = t.character) ∧
      ((∃ rest, t.memoryKey = Key.join name rest) ↔ name = t.character)) ∧
    ∀ u : Target, (∀ name ∈ [u.character, u.category, u.subtype], Key.checkName name = .ok ()) →
      (u.memoryKey = t.memoryKey ↔ u = t) := by
  have hplain : ∀ v : Target,
      (∀ name ∈ [v.character, v.category, v.subtype], Key.checkName name = .ok ()) → v.Plain := by
    intro v hv
    exact ⟨Key.checkName_eq_ok.mp (hv _ (by simp)), Key.checkName_eq_ok.mp (hv _ (by simp)),
      Key.checkName_eq_ok.mp (hv _ (by simp))⟩
  have hparts : t.Plain := hplain t ht
  refine ⟨?_, ?_, ?_, ?_⟩
  · exact Key.category?_memory hparts.character hparts.category hparts.subtype
  · exact Key.subtype?_memory hparts.character hparts.category hparts.subtype
  · intro name hname
    have hbelongs : Key.belongsTo t.memoryKey name = true ↔ name = t.character :=
      Key.belongsTo_memory hparts.character (Key.checkName_eq_ok.mp hname)
    exact ⟨hbelongs, Key.belongsTo_iff_join.symm.trans hbelongs⟩
  · intro u hu
    exact ⟨memoryKey_injective (hplain u hu) hparts, fun heq => heq ▸ rfl⟩

/-- Bobby's key begins like one of Bob's, its category has no name, and its subtype is called like
Bob. It belongs to Bobby, and not to Bob. -/
theorem memoryKey_reads_back_bobby :
    Key.category? (memoryKey ⟨"Bobby", "", "Bob"⟩) = some "" ∧
    Key.subtype? (memoryKey ⟨"Bobby", "", "Bob"⟩) = some "Bob" ∧
      Key.belongsTo (memoryKey ⟨"Bobby", "", "Bob"⟩) "Bob" = false ∧
      memoryKey ⟨"", "Bobby", "Bob"⟩ ≠ memoryKey ⟨"Bobby", "", "Bob"⟩ := by
  have haccepted : ∀ name ∈ ["", "Bob", "Bobby"], Key.checkName name = .ok () := by
    have hplain : ∀ name ∈ ["", "Bob", "Bobby"], Key.Plain name := by decide
    exact fun name hname => Key.checkName_eq_ok.mpr (hplain name hname)
  obtain ⟨hcategory, hsubtype, hname, hother⟩ :=
    memoryKey_reads_back (t := ⟨"Bobby", "", "Bob"⟩) fun name hmem => haccepted name (by grind)
  refine ⟨hcategory, hsubtype, ?_, ?_⟩
  · exact Bool.eq_false_iff.mpr fun h =>
      absurd ((hname "Bob" (haccepted _ (by decide))).1.mp h) (by decide)
  · exact fun h => absurd ((hother ⟨"", "Bobby", "Bob"⟩ fun name hmem => haccepted name (by grind)).mp h)
      (by decide)

end Target

end Narrative

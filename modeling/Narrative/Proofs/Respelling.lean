import Mathlib.Data.List.Nodup
import Mathlib.Data.List.Pairwise
import Mathlib.Logic.Relation
import Narrative.Format.Script
import Narrative.Proofs.Blanks

/-!
# `Proofs.Respelling` — the same story in other words

Authors may write a story file in many ways: most fields go by two names, their order is free, what
is not known is passed over, what has its default may be left out. Whatever of this is changed in a
file that is accepted, it is accepted still, and as the same script.

The changes are steps between JSON values, one change at a time, at one place. Which names and
defaults a record has is listed by its **fields**, and a step in a nested record is a step in the
field that it is in. All that has to be shown of a step is that it **keeps** each field as it is
read; the readers of the records, which look at nothing else, are then taken through one after the
other from the inside out.

## Contents
- **Steps.** `Field`; `RecordStep`, `ItemStep`, `MemberStep`.
- **Readings.** `Stays`: what is read is read again. `Keeps` for relations between values that keep
  what they are read as.
- **Fields.** `Kept`, and `RecordStep.kept`: a step keeps every field.
- **Story files.** The fields of each record, and that its reader keeps them.
- **Texts.** `Respelling`; the main result `parse_respelled`.
-/

namespace Narrative
open Json Relation

namespace Json

/-! ## Steps -/

/-- What may be written for a **field** of a record. -/
structure Field where
  /-- The names by which it goes. -/
  names : List String
  /-- The value that it has if it is left out. -/
  default : Option Json := none
  /-- How a value of it may be written in another way. -/
  inner : Json → Json → Prop := fun _ _ => False

/-- One change to a record with the given fields. -/
inductive RecordStep (fields : List Field) : Json → Json → Prop
  /-- A field is given by another of its names. -/
  | rename {f : Field} (hf : f ∈ fields) (name name' : String) (hname : name ∈ f.names)
    (hname' : name' ∈ f.names) (before after : List (String × Json)) (j : Json) :
    RecordStep fields (.object (before ++ (name, j) :: after)) (.object (before ++ (name', j) :: after))
  /-- The members are put into another order. -/
  | permute {ms ms' : List (String × Json)} (h : ms.Perm ms') :
    RecordStep fields (.object ms) (.object ms')
  /-- A member is added under a name that no field has. -/
  | add (name : String) (hname : ∀ f ∈ fields, name ∉ f.names) (before after : List (String × Json))
    (j : Json) :
    RecordStep fields (.object (before ++ after)) (.object (before ++ (name, j) :: after))
  /-- A field that has its default is left out. -/
  | drop {f : Field} (hf : f ∈ fields) (name : String) (hname : name ∈ f.names) {j : Json}
    (hdefault : f.default = some j) (before after : List (String × Json)) :
    RecordStep fields (.object (before ++ (name, j) :: after)) (.object (before ++ after))
  /-- The value of a field is written in another way. -/
  | inside {f : Field} (hf : f ∈ fields) (name : String) (hname : name ∈ f.names) {j j' : Json}
    (h : f.inner j j') (before after : List (String × Json)) :
    RecordStep fields (.object (before ++ (name, j) :: after)) (.object (before ++ (name, j') :: after))
  /-- The same where the fields are given in order. -/
  | item {f : Field} (before after : List Json) (hf : fields[before.length]? = some f) {j j' : Json}
    (h : f.inner j j') :
    RecordStep fields (.array (before ++ j :: after)) (.array (before ++ j' :: after))

/-- One change to an item of a list. -/
inductive ItemStep (R : Json → Json → Prop) : Json → Json → Prop
  | item {j j' : Json} (h : R j j') (before after : List Json) :
      ItemStep R (.array (before ++ j :: after)) (.array (before ++ j' :: after))

/-- One change to a value of a map. -/
inductive MemberStep (R : Json → Json → Prop) : Json → Json → Prop
  | member {j j' : Json} (h : R j j') (name : String) (before after : List (String × Json)) :
      MemberStep R (.object (before ++ (name, j) :: after)) (.object (before ++ (name, j') :: after))

/-! ## Readings -/

/-- What the first reading gives, the second one gives too. -/
def Stays {α : Type} (x y : Option α) : Prop := ∀ a, x = some a → y = some a

theorem stays_refl {α : Type} (x : Option α) : Stays x x := fun _ h => h

/-- One reading after the other. -/
theorem Stays.bind {α β : Type} {x y : Option α} {f g : α → Option β} (h : Stays x y)
    (hf : ∀ a, Stays (f a) (g a)) :
    Stays (x >>= f) (y >>= g) := by
  intro b hb
  obtain ⟨a, ha, hb⟩ := Option.bind_eq_some_iff.mp hb
  exact Option.bind_eq_some_iff.mpr ⟨a, h a ha, hf a b hb⟩

theorem Stays.map {α β : Type} {x y : Option α} (h : Stays x y) (f : α → β) :
    Stays (x.map f) (y.map f) := by
  intro b hb
  obtain ⟨a, ha, rfl⟩ := Option.map_eq_some_iff.mp hb
  exact Option.map_eq_some_iff.mpr ⟨a, h a ha, rfl⟩

theorem stays_mapM {α β : Type} {f : α → Option β} {a a' : α} (h : Stays (f a) (f a'))
    (before after : List α) :
    Stays ((before ++ a :: after).mapM f) ((before ++ a' :: after).mapM f) := by
  rw [List.mapM_append, List.mapM_append, List.mapM_cons, List.mapM_cons]
  exact (stays_refl _).bind fun _ => (h.bind fun _ => stays_refl _).bind fun _ => stays_refl _

/-- A relation between values **keeps** what they are read as. -/
def Keeps (α : Type) [OfJson α] (R : Json → Json → Prop) : Prop :=
  ∀ j j', R j j' → Stays (ofJson? j : Option α) (ofJson? j')

section Collections

variable {α : Type} [OfJson α] {R : Json → Json → Prop}

/-- Where a value cannot be written in another way there is nothing to keep. -/
theorem keeps_never : Keeps α fun _ _ => False := fun _ _ h => h.elim

theorem Keeps.items (h : Keeps α R) : Keeps (List α) (ItemStep R) := by
  rintro _ _ ⟨hj, before, after⟩
  exact stays_mapM (h _ _ hj) before after

theorem Keeps.members (h : Keeps α R) : Keeps (SortedMap String α) (MemberStep R) := by
  rintro _ _ ⟨hj, name, before, after⟩
  have hmember (j j' : Json) (hj : R j j') :
      Stays ((ofJson? (name, j).2 : Option α).map fun a => ((name, j).1, a))
        ((ofJson? (name, j').2 : Option α).map fun a => ((name, j').1, a)) :=
    (h j j' hj).map fun a => (name, a)
  exact (stays_mapM (f := fun m : String × Json => (ofJson? m.2 : Option α).map fun a => (m.1, a))
    (hmember _ _ hj) before after).map SortedMap.ofList

end Collections

/-! ## Fields -/

/-- Another way to write a field: the same, another way to write the value, or nothing for the
default. -/
inductive Field.Respelt (f : Field) : Option Json → Option Json → Prop
  | same (x : Option Json) : f.Respelt x x
  | inner {j j' : Json} (h : f.inner j j') : f.Respelt (some j) (some j')
  | dropped {j : Json} (h : f.default = some j) : f.Respelt (some j) none

/-- A field is **kept** from one record to another if it can be found in the second one wherever it
can be in the first, as another way to write the same. -/
def Kept (fields : List Field) (r r' : Record) : Prop := ∀ place f, fields[place]? = some f →
  ∀ x, r.find? place f.names = some x → ∃ x', r'.find? place f.names = some x' ∧ f.Respelt x x'

/-- No name belongs to two fields. -/
def Distinct (fields : List Field) : Prop :=
  ∀ f ∈ fields, ∀ g ∈ fields, ∀ name ∈ f.names, name ∈ g.names → f = g

theorem distinct_of_nodup {fields : List Field} (h : (fields.flatMap Field.names).Nodup) :
    Distinct fields := by
  obtain ⟨_, hpairs⟩ := List.nodup_flatMap.mp h
  have hsymm : Std.Symm (Function.onFun List.Disjoint Field.names) := ⟨fun _ _ h _ hg hf => h hf hg⟩
  intro f hf g hg name hname hname'
  by_contra hne
  exact hpairs.forall hf hg hne hname hname'

/-- The values of the members that go by one of the names. -/
def valuesOf (names : List String) (ms : List (String × Json)) : List Json :=
  (ms.filter fun m => names.contains m.1).map Prod.snd

/-- The value of a field, of which there may be at most one. -/
def single? : List Json → Option (Option Json)
  | [] => some none
  | [j] => some (some j)
  | _ => none

theorem find?_named (ms : List (String × Json)) (place : Nat) (names : List String) :
    Record.find? (.named ms) place names = single? (valuesOf names ms) := by
  simp only [Record.find?, valuesOf]
  cases ms.filter fun m => names.contains m.1 with
  | nil => rfl
  | cons m ms => cases ms <;> rfl

section Members

variable {names : List String} {name name' : String} {before after : List (String × Json)} {j : Json}

theorem valuesOf_append (names : List String) (before after : List (String × Json)) :
    valuesOf names (before ++ after) = valuesOf names before ++ valuesOf names after := by
  unfold valuesOf
  rw [List.filter_append, List.map_append]

theorem valuesOf_of_mem (h : name ∈ names) (before after : List (String × Json)) (j : Json) :
    valuesOf names (before ++ (name, j) :: after) = valuesOf names before ++ j ::
      valuesOf names after := by
  simp [valuesOf, h]

theorem valuesOf_of_not_mem (h : name ∉ names) (before after : List (String × Json)) (j : Json) :
    valuesOf names (before ++ (name, j) :: after) = valuesOf names (before ++ after) := by
  simp [valuesOf, h]

/-- Where there is a value at all, there is no other one next to it. -/
theorem single?_eq_some {js js' : List Json} {x : Option Json} (h : single? (js ++ j :: js') = some x) :
    js = [] ∧ js' = [] ∧ x = some j := by
  match js, js' with
  | [], [] => exact ⟨rfl, rfl, (Option.some.inj h).symm⟩
  | [], _ :: _ => cases h
  | [_], _ => cases h
  | _ :: _ :: _, _ => cases h

theorem single?_perm {js js' : List Json} (hperm : js.Perm js') {x : Option Json}
    (h : single? js = some x) :
    single? js' = some x := by
  match js with
  | [] => exact hperm.symm.eq_nil ▸ h
  | [j] => exact List.perm_singleton.mp hperm.symm ▸ h
  | _ :: _ :: _ => cases h

end Members

variable {fields : List Field} {j j' : Json} {n : Nat} {r : Record}

/-- A member under one name of a field is as good as one under another name of it, to this field and
to the others. -/
theorem valuesOf_rename {names : List String} {name name' : String} (h : name ∈ names ↔ name' ∈ names)
    (before after : List (String × Json)) (j : Json) :
    valuesOf names (before ++ (name, j) :: after) = valuesOf names (before ++ (name', j) :: after) := by
  by_cases hname : name ∈ names
  · rw [valuesOf_of_mem hname, valuesOf_of_mem (h.mp hname)]
  · rw [valuesOf_of_not_mem hname, valuesOf_of_not_mem fun hname' => hname (h.mpr hname')]

/-- Among named members it is the values that count. -/
theorem kept_named {ms ms' : List (String × Json)}
    (h : ∀ f ∈ fields, ∀ x, single? (valuesOf f.names ms) = some x →
      ∃ x', single? (valuesOf f.names ms') = some x' ∧ f.Respelt x x') :
    Kept fields (.named ms) (.named ms') := by
  intro place f hf x hx
  rw [find?_named] at hx ⊢
  exact h f (List.mem_of_getElem? hf) x hx

/-- A field of which the one value is replaced, by another one or by nothing, is the only one that
changes. -/
theorem kept_at {f : Field} (hfields : Distinct fields) (hf : f ∈ fields) {name : String}
    (hname : name ∈ f.names) {before after ms' : List (String × Json)} {x' : Option Json}
    (hother : ∀ names, name ∉ names → valuesOf names ms' = valuesOf names (before ++ after))
    (hself : valuesOf f.names before = [] → valuesOf f.names after = [] →
      single? (valuesOf f.names ms') = some x') (hx' : f.Respelt (some j) x') :
    Kept fields (.named (before ++ (name, j) :: after)) (.named ms') := by
  refine kept_named fun g hg x hx => ?_
  by_cases hn : name ∈ g.names
  · obtain rfl := hfields f hf g hg name hname hn
    rw [valuesOf_of_mem hname] at hx
    obtain ⟨hbefore, hafter, rfl⟩ := single?_eq_some hx
    exact ⟨x', hself hbefore hafter, hx'⟩
  · rw [valuesOf_of_not_mem hn] at hx
    exact ⟨x, hother g.names hn ▸ hx, .same x⟩

/-- **A step keeps every field of a record.** -/
theorem RecordStep.kept (hfields : Distinct fields) (h : RecordStep fields j j')
    (hr : record? n j = some r) :
    ∃ r', record? n j' = some r' ∧ Kept fields r r' := by
  cases h with
  | @rename f hf name name' hname hname' before after j =>
    cases hr
    refine ⟨_, rfl, kept_named fun g hg x hx => ⟨x, ?_, .same x⟩⟩
    have hboth : name ∈ g.names ↔ name' ∈ g.names :=
      ⟨fun hn => hfields f hf g hg name hname hn ▸ hname',
        fun hn => hfields f hf g hg name' hname' hn ▸ hname⟩
    rwa [← valuesOf_rename hboth]
  | permute h =>
    cases hr
    exact ⟨_, rfl, kept_named fun g _ x hx => ⟨x, single?_perm ((h.filter _).map _) hx, .same x⟩⟩
  | add name hname before after j =>
    cases hr
    refine ⟨_, rfl, kept_named fun g hg x hx => ⟨x, ?_, .same x⟩⟩
    rwa [valuesOf_of_not_mem (hname g hg)]
  | drop hf name hname hdefault before after =>
    cases hr
    refine ⟨_, rfl, kept_at hfields hf hname (fun _ _ => rfl) (fun hbefore hafter => ?_)
      (.dropped hdefault)⟩
    rw [valuesOf_append, hbefore, hafter]
    rfl
  | inside hf name hname h before after =>
    cases hr
    refine ⟨_, rfl, kept_at hfields hf hname (fun _ hn => valuesOf_of_not_mem hn ..)
      (fun hbefore hafter => ?_) (.inner h)⟩
    rw [valuesOf_of_mem hname, hbefore, hafter]
    rfl
  | @item f before after hf j j' h =>
    obtain ⟨hlength, hr⟩ := Option.ite_none_right_eq_some.mp hr
    cases hr
    have hset : before ++ j' :: after = (before ++ j :: after).set before.length j' := by simp
    refine ⟨.listed (before ++ j' :: after), if_pos (by simpa using hlength), fun place g hg x hx => ?_⟩
    cases hx
    by_cases hplace : before.length = place
    · subst hplace
      cases hf.symm.trans hg
      exact ⟨some j', by simp [Record.find?], by simpa using .inner h⟩
    · refine ⟨_, rfl, ?_⟩
      rw [hset, List.getElem?_set_ne hplace]
      exact .same _

/-! ## Story files -/

section Readers

variable {α β : Type} [OfJson α] {r' : Record} {place : Nat} {names : List String}
  {inner : Json → Json → Prop}

/-- A field that has to be given is read again. -/
theorem Kept.required (h : Kept fields r r') (hf : fields[place]? = some ⟨names, none, inner⟩)
    (hinner : Keeps α inner) :
    Stays (r.required place names : Option α) (r'.required place names) := by
  intro a ha
  unfold Record.required at ha ⊢
  split at ha
  · next j hj =>
    obtain ⟨x, hx, hrespelt⟩ := h place _ hf _ hj
    rw [hx]
    cases hrespelt with
    | same => exact ha
    | inner hj' => exact hinner _ _ hj' a ha
    | dropped hdefault => cases hdefault
  · cases ha

/-- So is a field with a default, where the default is what is read from the value that may be left
out. -/
theorem Kept.defaulted {d : Json} {default : α} (h : Kept fields r r')
    (hf : fields[place]? = some ⟨names, some d, inner⟩) (hd : ofJson? d = some default)
    (hinner : Keeps α inner) :
    Stays (r.defaulted place names default) (r'.defaulted place names default) := by
  intro a ha
  unfold Record.defaulted at ha ⊢
  split at ha
  · next j hj =>
    obtain ⟨x, hx, hrespelt⟩ := h place _ hf _ hj
    rw [hx]
    cases hrespelt with
    | same => exact ha
    | inner hj' => exact hinner _ _ hj' a ha
    | dropped hdefault =>
      cases hdefault
      exact hd.symm.trans ha
  · next hnone =>
    obtain ⟨x, hx, hrespelt⟩ := h place _ hf _ hnone
    rw [hx]
    cases hrespelt
    exact ha
  · cases ha

/-- A reader of a record that looks at the fields alone keeps what it reads. -/
theorem keeps_record (hfields : Distinct fields) {read : Record → Option β}
    (hread : ∀ r r', Kept fields r r' → Stays (read r) (read r')) (h : RecordStep fields j j') :
    Stays (record? n j >>= read) (record? n j' >>= read) := by
  intro b hb
  obtain ⟨r, hr, hb⟩ := Option.bind_eq_some_iff.mp hb
  obtain ⟨r', hr', hkept⟩ := h.kept hfields hr
  exact Option.bind_eq_some_iff.mpr ⟨r', hr', hread r r' hkept b hb⟩

end Readers

/-- The fields of a condition, and of an effect. -/
def conditionFields : List Field := [
  { names := ["character"] },
  { names := ["class", "category"] },
  { names := ["type", "subtype"] },
  { names := ["operation", "op"] },
  { names := ["value"] }]

/-- The fields of a declared category. -/
def categoryFields : List Field := [
  { names := ["class", "name"] },
  { names := ["types", "subtypes"], default := some (.array []) },
  { names := ["isBoolean", "is_boolean"], default := some (.bool false) },
  { names := ["min"], default := some .null },
  { names := ["max"], default := some .null },
  { names := ["defaultVal", "default"] }]

/-- The fields of a starting value. -/
def characteristicFields : List Field := [
  { names := ["name", "character"] },
  { names := ["class", "category"] },
  { names := ["type", "subtype"] },
  { names := ["value"] }]

/-- The fields of a declared action. -/
def actionFields : List Field := [
  { names := ["uid"] },
  { names := ["name"] },
  { names := ["first"], default := some (.bool false) },
  { names := ["class", "category"], default := some .null },
  { names := ["preconditions"], default := some (.array []),
    inner := ItemStep (RecordStep conditionFields) },
  { names := ["expressions"], default := some (.array []),
    inner := ItemStep (RecordStep conditionFields) },
  { names := ["leadsTo", "leads_to"], default := some (.array []) }]

/-- The fields of a story file. -/
def scriptFields : List Field := [
  { names := ["categories"], default := some (.array []),
    inner := ItemStep (RecordStep categoryFields) },
  { names := ["characters"], default := some (.array []) },
  { names := ["characteristics"], default := some (.array []),
    inner := ItemStep (RecordStep characteristicFields) },
  { names := ["actions"], default := some (.object []),
    inner := MemberStep (ItemStep (RecordStep actionFields)) }]

/-- The respelling of a condition does not depend on what its operator is. -/
theorem stays_conditionOfJson? {op : Type} [OfJson op] {j j' : Json}
    (h : RecordStep conditionFields j j') :
    Stays (conditionOfJson? j : Option (Target × op × Value)) (conditionOfJson? j') := by
  refine keeps_record (n := 5) (distinct_of_nodup (by decide)) (fun r r' hkept => ?_) h
  refine .bind (hkept.required rfl keeps_never) fun character => ?_
  refine .bind (hkept.required rfl keeps_never) fun category => ?_
  refine .bind (hkept.required rfl keeps_never) fun subtype => ?_
  refine .bind (hkept.required rfl keeps_never) fun operator => ?_
  exact .bind (hkept.required rfl keeps_never) fun operand => stays_refl _

theorem keeps_precondition : Keeps Precondition (RecordStep conditionFields) :=
  fun _ _ h => (stays_conditionOfJson? h).map _

theorem keeps_effect : Keeps Effect (RecordStep conditionFields) :=
  fun _ _ h => (stays_conditionOfJson? h).map _

theorem keeps_categoryDecl : Keeps CategoryDecl (RecordStep categoryFields) := by
  intro j j' h
  refine keeps_record (n := 6) (distinct_of_nodup (by decide)) (fun r r' hkept => ?_) h
  refine .bind (hkept.required rfl keeps_never) fun name => ?_
  refine .bind (hkept.defaulted rfl rfl keeps_never) fun subtypes => ?_
  refine .bind (hkept.defaulted rfl rfl keeps_never) fun isBoolean => ?_
  refine .bind (hkept.defaulted rfl rfl keeps_never) fun min => ?_
  refine .bind (hkept.defaulted rfl rfl keeps_never) fun max => ?_
  exact .bind (hkept.required rfl keeps_never) fun default => stays_refl _

theorem keeps_characteristicDecl : Keeps CharacteristicDecl (RecordStep characteristicFields) := by
  intro j j' h
  refine keeps_record (n := 4) (distinct_of_nodup (by decide)) (fun r r' hkept => ?_) h
  refine .bind (hkept.required rfl keeps_never) fun character => ?_
  refine .bind (hkept.required rfl keeps_never) fun category => ?_
  refine .bind (hkept.required rfl keeps_never) fun subtype => ?_
  exact .bind (hkept.required rfl keeps_never) fun value => stays_refl _

theorem keeps_actionDecl : Keeps ActionDecl (RecordStep actionFields) := by
  intro j j' h
  refine keeps_record (n := 7) (distinct_of_nodup (by decide)) (fun r r' hkept => ?_) h
  refine .bind (hkept.required rfl keeps_never) fun uid => ?_
  refine .bind (hkept.required rfl keeps_never) fun name => ?_
  refine .bind (hkept.defaulted rfl rfl keeps_never) fun first => ?_
  refine .bind (hkept.defaulted rfl rfl keeps_never) fun label => ?_
  refine .bind (hkept.defaulted rfl rfl keeps_precondition.items) fun preconditions => ?_
  refine .bind (hkept.defaulted rfl rfl keeps_effect.items) fun effects => ?_
  exact .bind (hkept.defaulted rfl rfl keeps_never) fun leadsTo => stays_refl _

theorem keeps_script : Keeps Script (RecordStep scriptFields) := by
  intro j j' h
  refine keeps_record (n := 4) (distinct_of_nodup (by decide)) (fun r r' hkept => ?_) h
  refine .bind (hkept.defaulted rfl rfl keeps_categoryDecl.items) fun categories => ?_
  refine .bind (hkept.defaulted rfl rfl keeps_never) fun characters => ?_
  refine .bind (hkept.defaulted rfl rfl keeps_characteristicDecl.items) fun characteristics => ?_
  exact .bind (hkept.defaulted rfl rfl keeps_actionDecl.items.members) fun actions => stays_refl _

/-! ## Texts -/

theorem parse?_seam {c : Char} (hc : Token.isSpace c = true) {front back : List Char}
    (h : Token.Seam front back) :
    parse? (String.ofList (front ++ c :: back)) = parse? (String.ofList (front ++ back)) := by
  unfold parse?
  rw [String.toList_ofList, String.toList_ofList, Token.all?_seam hc h]

end Json

/-- Another way to write a story file, by one change. -/
inductive Respelling : String → String → Prop
  /-- White space is put where it means nothing. -/
  | space {c : Char} (hc : Token.isSpace c = true) {front back : List Char} (h : Token.Seam front back) :
      Respelling (.ofList (front ++ back)) (.ofList (front ++ c :: back))
  /-- White space that means nothing is taken out. -/
  | close {c : Char} (hc : Token.isSpace c = true) {front back : List Char} (h : Token.Seam front back) :
      Respelling (.ofList (front ++ c :: back)) (.ofList (front ++ back))
  /-- The values that the two texts spell are a step apart. -/
  | step {t t' : String} {j j' : Json} (ht : Json.parse? t = some j) (ht' : Json.parse? t' = some j')
      (h : RecordStep scriptFields j j') : Respelling t t'

namespace Script

variable {t t' : String} {s : Script}

theorem parse_eq_ok : parse t = .ok s ↔ ofText? Script t = some s := by
  unfold parse
  cases ofText? Script t with
  | none => exact ⟨fun h => (nomatch h), fun h => (nomatch h)⟩
  | some s' =>
    exact ⟨fun h => congrArg some (Except.ok.inj h), fun h => congrArg Except.ok (Option.some.inj h)⟩

theorem ofText?_respelled (h : Respelling t t') (hs : ofText? Script t = some s) :
    ofText? Script t' = some s := by
  unfold ofText? at hs ⊢
  cases h with
  | space hc h => rwa [parse?_seam hc h]
  | close hc h => rwa [← parse?_seam hc h]
  | step ht ht' h =>
    rw [ht] at hs
    rw [ht']
    exact keeps_script _ _ h s hs

/-- **The spelling of a story file does not matter.** A file that is accepted is accepted in every
other way to write it, and as the same script. Such other ways there are: whatever steps lead to
from its value is the value of a text, with which this holds as well. -/
theorem parse_respelled (hs : parse t = .ok s) :
    (∀ t', ReflTransGen Respelling t t' → parse t' = .ok s) ∧
    ∃ j, Json.parse? t = some j ∧ ∀ j', ReflTransGen (RecordStep scriptFields) j j' →
      Json.parse? j'.render = some j' ∧ parse j'.render = .ok s := by
  rw [parse_eq_ok] at hs
  constructor
  · intro t' h
    rw [parse_eq_ok]
    induction h with
    | refl => exact hs
    | tail _ h ih => exact ofText?_respelled h ih
  · obtain ⟨j, hj, hread⟩ := Option.bind_eq_some_iff.mp hs
    refine ⟨j, hj, fun j' h => ⟨parse?_render j', ?_⟩⟩
    have hread' : ofJson? j' = some s := by
      induction h with
      | refl => exact hread
      | tail _ h ih => exact keeps_script _ _ h s ih
    rw [parse_eq_ok, ofText?, parse?_render]
    exact hread'

/-- A story file about a mood. -/
def moodFile : Json := .object [
  ("characters", .array [.string "Bob"]),
  ("categories", .array [.object [("class", .string "Mood"), ("types", .array [.string "happy"]),
    ("isBoolean", .bool false), ("min", ofInt 0), ("max", ofInt 10), ("defaultVal", ofInt 5)]])]

/-- The same in another order, with another name for the category, less about its kind, and more
about the author. -/
def signedFile : Json := .object [
  ("categories", .array [.object [("name", .string "Mood"), ("types", .array [.string "happy"]),
    ("min", ofInt 0), ("max", ofInt 10), ("defaultVal", ofInt 5)]]),
  ("characters", .array [.string "Bob"]),
  ("author", .string "Ann")]

theorem moodFile_steps : ReflTransGen (RecordStep scriptFields) moodFile signedFile := by
  have hcategories :
      (⟨["categories"], some (.array []), ItemStep (RecordStep categoryFields)⟩ : Field) ∈
        scriptFields :=
    List.mem_cons_self
  have hname : (⟨["class", "name"], none, fun _ _ => False⟩ : Field) ∈ categoryFields :=
    List.mem_cons_self
  have hkind :
      (⟨["isBoolean", "is_boolean"], some (.bool false), fun _ _ => False⟩ : Field) ∈ categoryFields :=
    List.mem_of_getElem? (i := 2) rfl
  refine .head (.inside hcategories "categories" List.mem_cons_self
    (.item (.rename hname "class" "name" (by decide) (by decide) [] _ _) [] [])
    [("characters", _)] []) ?_
  refine .head (.inside hcategories "categories" List.mem_cons_self
    (.item (.drop hkind "isBoolean" (by decide) rfl [_, _] _) [] [])
    [("characters", _)] []) ?_
  refine .head (.permute (List.Perm.swap _ _ _)) ?_
  exact .single (.add "author" (by decide) [_, _] [] _)

/-- With white space at the start the file is read all the same. -/
theorem parse_respelled_signed :
    parse moodFile.render = .ok ⟨[.numeric "Mood" ["happy"] 0 10 5], ["Bob"], [], .empty⟩ ∧
    ∃ rest, signedFile.render = .ofList ('{' :: rest) ∧
      parse (.ofList ('{' :: '\n' :: rest)) =
        .ok ⟨[.numeric "Mood" ["happy"] 0 10 5], ["Bob"], [], .empty⟩ := by
  have hread : parse moodFile.render =
      .ok ⟨[.numeric "Mood" ["happy"] 0 10 5], ["Bob"], [], .empty⟩ := by
    rw [parse_eq_ok, ofText?, parse?_render]
    rfl
  have htexts : ReflTransGen Respelling moodFile.render signedFile.render :=
    moodFile_steps.lift Json.render fun j j' h => .step (parse?_render j) (parse?_render j') h
  obtain ⟨rest, hrest⟩ : ∃ rest, signedFile.render = .ofList ('{' :: rest) := ⟨_, rfl⟩
  have hseam : Token.Seam ['{'] rest := by
    refine ⟨rfl, fun a ha b _ hboth => ?_⟩
    cases ha
    cases hboth.1
  obtain ⟨hall, _⟩ := parse_respelled hread
  refine ⟨hread, rest, hrest, hall _ (htexts.tail ?_)⟩
  rw [hrest]
  exact .space (c := '\n') rfl hseam

end Script
end Narrative

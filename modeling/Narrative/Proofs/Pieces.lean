import Narrative.Proofs.Inheritance

/-!
# `Proofs.Pieces` — declarations that are loaded in pieces

Declarations may be loaded all at once, or the first ones before the others. The passes are
interleaved differently then. At once, all actions are mapped before any of them is linked, and the
labels of the first ones spread on a plot where the others are there already; in pieces, the first
ones are linked, validated and labelled before the others are heard of.

It makes no difference, because the first ones can do without the others: nothing leads from an old
action to a new one. So no label gets from the first ones to the others, whether they are there or
not (`Joins.spreadAll`). What is left is that a plot has the same fault or none either way, and that
an action lists its parents in the order in which the declarations name it (`parentsOf_extend`),
which is the same order.

## Contents
- **Parents.** `parentsOf`, pass by pass, and `parentsOf_extend`.
- **Joining.** `Joins.split` and `Accepts.append_iff`.
- **Labels.** `Joins.gets_old` and `Joins.spreadAll`; `content_spreadAll` for plots of the same content.
- **One plot.** `eq_of_content`; `eq_of_pieces` and `extend_append`.
- **The main result** is `loadActions_in_pieces`.
-/

namespace Narrative
open Outcome Relation

/-- What two options may hold is the same if it is the same under a map, and if the rest of it is,
too. -/
theorem eq_of_map_eq {α β : Type} {f : α → β} {x y : Option α} (h : x.map f = y.map f)
    (hrest : ∀ a b, x = some a → y = some b → f a = f b → a = b) : x = y := by
  cases x with
  | none => exact (Option.map_eq_none_iff.mp h.symm).symm
  | some a =>
    obtain ⟨b, rfl, hab⟩ := Option.map_eq_some_iff.mp h.symm
    exact congrArg some (hrest a b rfl rfl hab.symm)

namespace Plot

variable {r : Registry} {owner : String} {p p' q q' : Plot} {d : ActionDecl}
  {ds xs ys : List ActionDecl} {uid n : Uid}

/-! ## Parents -/

/-- The parents that an action lists. -/
def parentsOf (p : Plot) (uid : Uid) : List Uid := ((p.action? uid).map (·.parents)).getD []

theorem parentsOf_of_some {a : Action} (ha : p.action? uid = some a) : p.parentsOf uid = a.parents := by
  unfold parentsOf
  rw [ha]
  rfl

theorem parentsOf_of_unmapped (h : p.mapped uid = false) : p.parentsOf uid = [] := by
  unfold parentsOf
  rw [action?_of_unmapped h]
  rfl

theorem parentsOf_addFirst (p : Plot) (first uid : Uid) :
    (p.addFirst first).parentsOf uid = p.parentsOf uid := by
  unfold addFirst
  split <;> rfl

/-- An action that nothing leads to comes in without parents. -/
theorem parentsOf_insert {a : Action} (hlinks : ∀ b, ¬p.Leads b a.uid) (h : p.insert a = .ok q)
    (uid : Uid) :
    q.parentsOf uid = p.parentsOf uid := by
  unfold insert at h
  split at h
  · cases h
  · next hnew =>
    cases h
    have hnone : (p.actions.values.filter fun b => b.children.contains a.uid) = [] := by
      refine List.filter_eq_nil_iff.mpr fun b hb hchild => ?_
      obtain ⟨⟨uid, _⟩, hentry, rfl⟩ := List.mem_map.mp hb
      exact hlinks uid (leads_of_mem (SortedMap.get?_eq_some_iff.mpr hentry)
        (List.contains_iff_mem.mp hchild))
    rw [hnone]
    show (((p.actions.insert a.uid _).get? uid).map _).getD [] = _
    rw [SortedMap.get?_insert]
    split
    · next huid =>
      rw [huid, parentsOf_of_unmapped (Bool.eq_false_iff.mpr hnew)]
      rfl
    · rfl

/-- The first pass maps actions without links, so it brings no new ones. -/
theorem Joins.leads_toAction (h : p.Joins ActionDecl.toAction ds q) {a b : Uid} (hab : q.Leads a b) :
    p.Leads a b := by
  unfold Leads at hab ⊢
  rw [childrenOf_eq_content] at hab ⊢
  by_cases ha : a ∈ ds.map (·.uid)
  · obtain ⟨d, hd, rfl⟩ := List.mem_map.mp ha
    rw [h.new d hd] at hab
    exact absurd hab List.not_mem_nil
  · rwa [h.old a ha] at hab

theorem Joins.wellShaped_toAction (h : p.Joins ActionDecl.toAction ds q) (hp : p.WellShaped) :
    q.WellShaped where
  roots := h.rootsMapped hp.roots
  links := fun a b hab => (h.mapped_iff b).mpr (.inr (hp.links a b (h.leads_toAction hab)))
  acyclic := fun a hloop => hp.acyclic a (TransGen.mono (fun _ _ => h.leads_toAction) a a hloop)

theorem parentsOf_declare (hp : p.WellShaped) (h : declare r owner p d = .ok q) (uid : Uid) :
    q.parentsOf uid = p.parentsOf uid := by
  obtain ⟨_, hnew, _⟩ := declare_ok hp.roots h
  obtain ⟨_, q₀, hinsert, rfl⟩ := declare_eq_ok.mp h
  -- in a well-shaped plot nothing leads to a uid that is not mapped
  have hinserted : q₀.parentsOf uid = p.parentsOf uid :=
    parentsOf_insert (fun b hb => Bool.eq_false_iff.mp hnew (hp.links b _ hb)) hinsert uid
  split
  · rw [parentsOf_addFirst, hinserted]
  · exact hinserted

/-- The first pass gives nobody parents. -/
theorem parentsOf_declareAll (hp : p.WellShaped) (h : ds.foldlM (declare r owner) p = .ok q)
    (uid : Uid) :
    q.parentsOf uid = p.parentsOf uid := by
  have hkept : q.WellShaped ∧ q.parentsOf uid = p.parentsOf uid := by
    refine foldlM_keeps (P := fun q => q.WellShaped ∧ q.parentsOf uid = p.parentsOf uid) ?_ ⟨hp, rfl⟩ h
    rintro d _ p₁ p₂ ⟨hp₁, hparents⟩ hdeclare
    obtain ⟨_, _, hjoins⟩ := declare_ok hp₁.roots hdeclare
    exact ⟨hjoins.wellShaped_toAction hp₁, (parentsOf_declare hp₁ hdeclare uid).trans hparents⟩
  exact hkept.2

/-- A new link adds one parent to the child. -/
theorem parentsOf_addChild {parent child : Uid} (h : p.addChild parent child = .ok q)
    (huid : p.mapped uid = true) :
    q.parentsOf uid = p.parentsOf uid ++
      if uid = child ∧ child ∉ p.childrenOf parent then [parent] else [] := by
  unfold addChild at h
  split at h
  · cases h
  · next a ha =>
    have hleads : a.children.contains child = true ↔ child ∈ p.childrenOf parent := by
      rw [childrenOf_of_some ha, List.contains_iff_mem]
    split at h
    · next hchild =>
      cases h
      rw [if_neg fun hnew => hnew.2 (hleads.mp hchild), List.append_nil]
    · next hchild =>
      cases h
      let linked : Plot :=
        { p with
          actions := p.actions.insert parent { a with children := a.children ++ [child] }
          validated := false }
      -- the parent has one more child, but the parents that it had
      have hkept : linked.parentsOf uid = p.parentsOf uid := by
        show ((SortedMap.get? (p.actions.insert parent _) uid).map _).getD [] = _
        rw [SortedMap.get?_insert]
        split
        · next hparent => rw [hparent, parentsOf_of_some ha]; rfl
        · rfl
      have hmapped : linked.mapped uid = true := by
        show (SortedMap.get? (p.actions.insert parent _) uid).isSome = true
        rw [SortedMap.get?_insert]
        split
        · rfl
        · exact huid
      obtain ⟨b, hb⟩ := mapped_iff.mp hmapped
      rw [← hkept, parentsOf_of_some hb]
      show (((linked.updateAction child _).action? uid).map _).getD [] = _
      rw [action?_updateAction]
      by_cases hsame : uid = child
      · subst hsame
        rw [if_pos rfl, if_pos ⟨rfl, fun hold => hchild (hleads.mpr hold)⟩, hb]
        rfl
      · rw [if_neg hsame, if_neg fun hnew => hsame hnew.1, hb, List.append_nil]
        rfl

theorem mapped_of_addChild {parent child : Uid} (h : p.addChild parent child = .ok q)
    (hparent : p.mapped parent = true) (uid : Uid) : q.mapped uid = p.mapped uid := by
  obtain ⟨q', hq', _, hcontent⟩ := addChild_content child hparent
  obtain rfl : q = q' := Except.ok.inj (h.symm.trans hq')
  exact mapped_of_content hcontent uid

theorem mem_childrenOf_of_addChild {parent child : Uid} (h : p.addChild parent child = .ok q)
    (hparent : p.mapped parent = true) (b : Uid) :
    b ∈ q.childrenOf parent ↔ b ∈ p.childrenOf parent ∨ b = child := by
  obtain ⟨q', hq', _, hcontent⟩ := addChild_content child hparent
  obtain rfl : q = q' := Except.ok.inj (h.symm.trans hq')
  obtain ⟨a, ha⟩ := mapped_iff.mp hparent
  rw [childrenOf_eq_content, hcontent, if_pos rfl, childrenOf_of_some ha]
  unfold content
  rw [ha]
  show b ∈ (if a.children.contains child then a.children else a.children ++ [child]) ↔ _
  split
  · next hchild =>
    exact ⟨.inl, fun hb => hb.elim id fun heq => heq ▸ List.contains_iff_mem.mp hchild⟩
  · rw [List.mem_append, List.mem_singleton]

/-- The links of one action make it a parent of each new child, once. -/
theorem parentsOf_addChildren {parent : Uid} {children : List Uid}
    (hparent : p.mapped parent = true) (h : children.foldlM (·.addChild parent ·) p = .ok q)
    (huid : p.mapped uid = true) :
    q.parentsOf uid = p.parentsOf uid ++
      if uid ∈ children ∧ uid ∉ p.childrenOf parent then [parent] else [] := by
  induction children generalizing p with
  | nil =>
    cases h
    rw [if_neg fun hnew => List.not_mem_nil hnew.1, List.append_nil]
  | cons child children ih =>
    rw [List.foldlM_cons, bind_eq_ok] at h
    obtain ⟨p₁, hchild, hchildren⟩ := h
    have hmapped := mapped_of_addChild hchild hparent
    rw [ih ((hmapped parent).trans hparent) hchildren ((hmapped uid).trans huid),
      parentsOf_addChild hchild huid, List.append_assoc]
    refine congrArg _ ?_
    have hmem := mem_childrenOf_of_addChild hchild hparent uid
    by_cases hsame : uid = child
    · -- named again or not, it is a child by now
      subst hsame
      have hthere : ¬(uid ∈ children ∧ uid ∉ p₁.childrenOf parent) :=
        fun hnew => hnew.2 (hmem.mpr (.inr rfl))
      rw [if_neg hthere, List.append_nil]
      simp only [true_and, List.mem_cons, true_or]
    · simp only [hmem, hsame, false_and, if_false, List.nil_append, List.mem_cons, false_or, or_false]

/-- The second pass gives an action the declarations that name it as parents, in their order. -/
theorem parentsOf_linkAll (hdistinct : (ds.map (·.uid)).Nodup)
    (hmapped : ∀ d ∈ ds, p.mapped d.uid = true) (hchildless : ∀ d ∈ ds, p.childrenOf d.uid = [])
    (h : ds.foldlM link p = .ok q) (huid : p.mapped uid = true) :
    q.parentsOf uid = p.parentsOf uid ++ (ds.filter (uid ∈ ·.leadsTo)).map (·.uid) := by
  induction ds generalizing p with
  | nil =>
    cases h
    exact (List.append_nil _).symm
  | cons d ds ih =>
    rw [List.foldlM_cons, bind_eq_ok] at h
    obtain ⟨p₁, hd, hds⟩ := h
    rw [List.forall_mem_cons] at hmapped hchildless
    obtain ⟨hother, hdistinct⟩ := List.nodup_cons.mp hdistinct
    obtain ⟨p₁', hd', _, hcontent⟩ := addChildren_content d.leadsTo hmapped.1
    obtain rfl : p₁ = p₁' := Except.ok.inj (hd.symm.trans hd')
    have hkept : ∀ uid, p₁.mapped uid = p.mapped uid := mapped_of_content hcontent
    have hchildless₁ : ∀ d' ∈ ds, p₁.childrenOf d'.uid = [] := fun d' hd' => by
      rw [childrenOf_eq_content, hcontent, if_neg fun heq => hother (List.mem_map.mpr ⟨d', hd', heq⟩),
        ← childrenOf_eq_content]
      exact hchildless.2 d' hd'
    have hnone : uid ∉ p.childrenOf d.uid := by
      rw [hchildless.1]
      exact List.not_mem_nil
    rw [ih hdistinct (fun d' hd' => (hkept _).trans (hmapped.2 d' hd')) hchildless₁ hds
      ((hkept uid).trans huid), parentsOf_addChildren hmapped.1 hd huid, List.append_assoc]
    refine congrArg _ ?_
    by_cases hnamed : uid ∈ d.leadsTo
    · rw [if_pos ⟨hnamed, hnone⟩, List.filter_cons_of_pos (by simpa using hnamed)]
      rfl
    · rw [if_neg fun hnew => hnamed hnew.1, List.filter_cons_of_neg (by simpa using hnamed),
        List.nil_append]

theorem Relabelled.parentsOf (h : Relabelled p q) (uid : Uid) : q.parentsOf uid = p.parentsOf uid := by
  have hparents := congrArg (Option.map (·.parents)) (h.actions uid)
  rw [Option.map_map, Option.map_map] at hparents
  exact congrArg (Option.getD · []) hparents

/-- **After loading an action lists its old parents, and after them the declarations that name it**,
in their order. -/
theorem parentsOf_extend (hp : p.WellShaped) (h : extend r owner p ds = .ok q) (uid : Uid) :
    q.parentsOf uid = p.parentsOf uid ++ (ds.filter (uid ∈ ·.leadsTo)).map (·.uid) := by
  obtain ⟨declared, linked, hdeclared, hlinked, _, hlabels⟩ := extend_eq_ok h
  obtain ⟨_, hdistinct, _, hjoins⟩ := declareAll_ok hp.roots hdeclared
  have hnew : ∀ d ∈ ds, declared.mapped d.uid = true := fun d hd =>
    (hjoins.mapped_iff d.uid).mpr (.inl (List.mem_map_of_mem hd))
  have hchildless : ∀ d ∈ ds, declared.childrenOf d.uid = [] := fun d hd => by
    rw [childrenOf_eq_content, hjoins.new d hd]
    rfl
  -- the mark and the labels are no parents
  have hparents : q.parentsOf uid = linked.parentsOf uid := (relabelled_spreadAll hlabels).parentsOf uid
  by_cases huid : declared.mapped uid = true
  · rw [hparents, parentsOf_linkAll hdistinct hnew hchildless hlinked huid,
      parentsOf_declareAll hp hdeclared]
  · obtain ⟨haccepts, joined, hjoined, _, _, hlabels'⟩ := extend_ok hp h
    rw [hjoins.mapped_iff, not_or] at huid
    have hunmapped : q.mapped uid = false := by
      rw [(relabelled_spreadAll hlabels').sameShape.mapped, Bool.eq_false_iff, ne_eq,
        hjoined.mapped_iff, not_or]
      exact huid
    -- what is not there is named by no declaration
    have hnot : ds.filter (uid ∈ ·.leadsTo) = [] := List.filter_eq_nil_iff.mpr fun d hd hnamed => by
      exact (haccepts.known d hd uid (of_decide_eq_true hnamed)).elim huid.2 huid.1
    rw [hnot, parentsOf_of_unmapped hunmapped, parentsOf_of_unmapped (Bool.eq_false_iff.mpr huid.2)]
    rfl

/-! ## Joining -/

/-- What joins two lists of declarations joins the second to whatever joins the first. -/
theorem Joins.split {f : ActionDecl → Action} (h : p.Joins f (xs ++ ys) q') (hxs : p.Joins f xs q) :
    q.Joins f ys q' where
  roots := by rw [h.roots, hxs.roots, List.filter_append, List.map_append, List.append_assoc]
  new := fun d hd => h.new d (List.mem_append_right _ hd)
  old := by
    intro uid hys
    by_cases huid : uid ∈ xs.map (·.uid)
    · obtain ⟨d, hd, rfl⟩ := List.mem_map.mp huid
      rw [h.new d (List.mem_append_left _ hd), hxs.new d hd]
    · rw [h.old uid (by rw [List.map_append, List.mem_append, not_or]; exact ⟨huid, hys⟩),
        hxs.old uid huid]

/-- There is only one content that joins declarations. -/
theorem Joins.content_eq {f : ActionDecl → Action} (h : p.Joins f ds q) (h' : p.Joins f ds q') :
    q.content = q'.content := by
  funext uid
  by_cases huid : uid ∈ ds.map (·.uid)
  · obtain ⟨d, hd, rfl⟩ := List.mem_map.mp huid
    rw [h.new d hd, h'.new d hd]
  · rw [h.old uid huid, h'.old uid huid]

theorem Accepts.congr (h : p.Accepts r ds) (hmapped : ∀ uid, q.mapped uid = p.mapped uid) :
    q.Accepts r ds where
  fit := h.fit
  distinct := h.distinct
  fresh := fun d hd => (hmapped d.uid).trans (h.fresh d hd)
  known := fun d hd child hchild => by rw [hmapped]; exact h.known d hd child hchild
  acyclic := h.acyclic

/-- What fits in and has new and different uids can be joined. -/
theorem exists_joins (hroots : p.RootsMapped) (hfit : ∀ d ∈ ds, d.FitsIn r)
    (hdistinct : (ds.map (·.uid)).Nodup) (hfresh : ∀ d ∈ ds, p.mapped d.uid = false) :
    ∃ joined, p.Joins ActionDecl.linked ds joined := by
  obtain ⟨declared, hdeclared⟩ : ∃ declared, ds.foldlM (declare r "") p = .ok declared :=
    declareAll_succeeds hroots hfit hdistinct hfresh
  obtain ⟨_, _, _, hjoins⟩ := declareAll_ok hroots hdeclared
  obtain ⟨joined, _, hjoined⟩ := hjoins.linkAll hdistinct
  exact ⟨joined, hjoined⟩

/-- **A plot accepts declarations in pieces if it accepts them at once**, and the other way round. -/
theorem Accepts.append_iff (hp : p.WellShaped) (hxs : p.Accepts r xs)
    (hq : p.Joins ActionDecl.linked xs q) (hshape : q.WellShaped) :
    p.Accepts r (xs ++ ys) ↔ q.Accepts r ys := by
  -- on both sides it is the shape of all that is joined which decides about links and loops
  constructor
  · intro h
    obtain ⟨joined, hjoined⟩ := exists_joins hp.roots h.fit h.distinct h.fresh
    obtain ⟨_, hdistinct, hdisjoint⟩ := List.nodup_append.mp (List.map_append ▸ h.distinct)
    have hfresh : ∀ d ∈ ys, q.mapped d.uid = false := fun d hd => by
      rw [Bool.eq_false_iff, ne_eq, hq.mapped_iff, not_or]
      refine ⟨fun hmem => hdisjoint _ hmem _ (List.mem_map_of_mem hd) rfl, ?_⟩
      exact Bool.eq_false_iff.mp (h.fresh d (List.mem_append_right _ hd))
    have hsound : joined.WellShaped := (hjoined.wellShaped_iff hp h.fresh).mpr ⟨h.known, h.acyclic⟩
    obtain ⟨hknown, hacyclic⟩ := ((hjoined.split hq).wellShaped_iff hshape hfresh).mp hsound
    exact ⟨fun d hd => h.fit d (List.mem_append_right _ hd), hdistinct, hfresh, hknown, hacyclic⟩
  · intro h
    have hnew : ∀ d ∈ ys, d.uid ∉ xs.map (·.uid) ∧ ¬p.mapped d.uid = true := fun d hd => by
      rw [← not_or, ← hq.mapped_iff]
      exact Bool.eq_false_iff.mp (h.fresh d hd)
    have hfit : ∀ d ∈ xs ++ ys, d.FitsIn r := List.forall_mem_append.mpr ⟨hxs.fit, h.fit⟩
    have hfresh : ∀ d ∈ xs ++ ys, p.mapped d.uid = false :=
      List.forall_mem_append.mpr ⟨hxs.fresh, fun d hd => Bool.eq_false_iff.mpr (hnew d hd).2⟩
    have hdistinct : ((xs ++ ys).map (·.uid)).Nodup := by
      rw [List.map_append]
      refine List.nodup_append.mpr ⟨hxs.distinct, h.distinct, fun a ha b hb hab => ?_⟩
      obtain ⟨d, hd, rfl⟩ := List.mem_map.mp hb
      exact (hnew d hd).1 (hab ▸ ha)
    obtain ⟨joined, hjoined⟩ := exists_joins hp.roots hfit hdistinct hfresh
    have hsound : joined.WellShaped :=
      ((hjoined.split hq).wellShaped_iff hshape h.fresh).mpr ⟨h.known, h.acyclic⟩
    obtain ⟨hknown, hacyclic⟩ := (hjoined.wellShaped_iff hp hfresh).mp hsound
    exact ⟨hfit, hdistinct, hfresh, hknown, hacyclic⟩

/-! ## Labels -/

section Joined

variable {joined joined' : Plot}

theorem Joins.unlabelled_old (h : p.Joins ActionDecl.linked ds joined)
    (hfresh : ∀ d ∈ ds, p.mapped d.uid = false) (hn : p.mapped n = true) :
    joined.Unlabelled n ↔ p.Unlabelled n := by
  unfold Unlabelled
  rw [h.labelOf_old (not_declared_of_mapped hfresh hn), hn, (h.mapped_iff n).mpr (.inr hn)]

/-- From an old action labels pass to the old ones that they passed to before. -/
theorem Joins.passes_old (h : p.Joins ActionDecl.linked ds joined)
    (hlinks : ∀ a b, p.Leads a b → p.mapped b = true) (hfresh : ∀ d ∈ ds, p.mapped d.uid = false)
    {a b : Uid} (ha : p.mapped a = true) :
    joined.Passes a b ↔ p.Passes a b := by
  unfold Passes
  rw [h.leads_old (not_declared_of_mapped hfresh ha)]
  exact and_congr_right fun hab => h.unlabelled_old hfresh (hlinks a b hab)

theorem Joins.labels_below_old (h : p.Joins ActionDecl.linked ds joined)
    (hlinks : ∀ a b, p.Leads a b → p.mapped b = true) (hfresh : ∀ d ∈ ds, p.mapped d.uid = false)
    {a : Uid} (ha : p.mapped a = true) : joined.Below a n ↔ p.Below a n := by
  have hold : ∀ {a b}, p.mapped a = true → (joined.Passes a b ↔ p.Passes a b) :=
    h.passes_old hlinks hfresh
  constructor
  · refine transGen_of_mapped (fun ha hab => ?_) ha
    have hpass := (hold ha).mp hab
    exact ⟨hpass, hpass.2.1⟩
  · exact transGen_of_mapped (fun ha hab => ⟨(hold ha).mpr hab, hab.2.1⟩) ha

/-- **Who gets the label of an old action does not depend on new ones**; none of them does. -/
theorem Joins.gets_old (h : p.Joins ActionDecl.linked ds joined)
    (hlinks : ∀ a b, p.Leads a b → p.mapped b = true) (hfresh : ∀ d ∈ ds, p.mapped d.uid = false)
    {a : Uid} (ha : p.mapped a = true) :
    joined.Gets a n ↔ p.Gets a n := by
  unfold Gets
  rw [h.labels_below_old hlinks hfresh ha]
  refine and_congr_left fun hway => h.unlabelled_old hfresh ?_
  rcases hway with rfl | hbelow
  · exact ha
  · exact hbelow.unlabelled.1

/-- Where plots had the same content at a uid, they still do if they have come to the same label
there. -/
theorem Relabelled.content_eq (h : Relabelled p q) (h' : Relabelled p' q')
    (hcontent : p.content uid = p'.content uid) (hlabel : q.labelOf uid = q'.labelOf uid) :
    q.content uid = q'.content uid := by
  have hrelabel : ∀ {p q : Plot}, Relabelled p q →
      q.content uid = (p.content uid).map fun a => { a with label := q.labelOf uid } := by
    intro p q h
    unfold content
    rw [h.action?_eq, Option.map_map, Option.map_map]
    rfl
  rw [hrelabel h, hrelabel h', hcontent, hlabel]

/-- **Labels of old actions spread as if the new ones were not there**: what has joined the others
to the plot before joins them to the plot after. -/
theorem Joins.spreadAll (h : p.Joins ActionDecl.linked ys joined)
    (hlinks : ∀ a b, p.Leads a b → p.mapped b = true) (hfresh : ∀ d ∈ ys, p.mapped d.uid = false)
    (hold : ∀ d ∈ xs, p.mapped d.uid = true) (hq : xs.foldlM spread p = .ok q)
    (hjoined : xs.foldlM spread joined = .ok joined') :
    q.Joins ActionDecl.linked ys joined' := by
  have hrelabelled := relabelled_spreadAll hq
  have hrelabelled' := relabelled_spreadAll hjoined
  have hgets : ∀ n, inherited? (joined.Gets · n) xs = inherited? (p.Gets · n) xs := fun n =>
    inherited?_congr fun d hd _ => h.gets_old hlinks hfresh (hold d hd)
  refine ⟨?_, fun d hd => ?_, fun n hn => ?_⟩
  · rw [hrelabelled'.roots, h.roots, hrelabelled.roots]
  · -- no one among `xs` has anything to give to a new action
    have hnone : inherited? (p.Gets · d.uid) xs = none := inherited?_eq_none_iff.mpr fun _ _ _ hget =>
      absurd hget.1.1 (Bool.eq_false_iff.mp (hfresh d hd))
    rw [← h.new d hd]
    refine hrelabelled'.content_eq (relabelled_refl joined) rfl ?_
    rw [labelOf_spreadAll hjoined, hgets, hnone, Option.or_none]
  · refine hrelabelled'.content_eq hrelabelled (h.old n hn) ?_
    rw [labelOf_spreadAll hjoined, labelOf_spreadAll hq, hgets, h.labelOf_old hn]

/-- From the same content labels spread to the same content. -/
theorem content_spreadAll (h : p.content = p'.content) (hq : ds.foldlM spread p = .ok q)
    (hq' : ds.foldlM spread p' = .ok q') : q.content = q'.content := by
  have hlabels : p.labelOf = p'.labelOf :=
    funext fun n => by rw [labelOf_eq_content, labelOf_eq_content, h]
  have hmapped : p.mapped = p'.mapped := funext fun n => by rw [mapped_eq_content, mapped_eq_content, h]
  have hleads : p.Leads = p'.Leads := by
    funext a b
    unfold Leads
    rw [childrenOf_eq_content, childrenOf_eq_content, h]
  have hgets : p.Gets = p'.Gets := by
    unfold Gets Below Passes Unlabelled
    rw [hlabels, hmapped, hleads]
  funext n
  refine (relabelled_spreadAll hq).content_eq (relabelled_spreadAll hq') (congrFun h n) ?_
  rw [labelOf_spreadAll hq, labelOf_spreadAll hq', hlabels, hgets]

end Joined

/-! ## One plot -/

/-- Content and parents are all there is to a plot, besides the first actions and the mark. -/
theorem eq_of_content (hroots : p.roots = q.roots) (hmark : p.validated = q.validated)
    (hcontent : p.content = q.content) (hparents : p.parentsOf = q.parentsOf) : p = q := by
  have hactions : p.actions = q.actions := by
    refine SortedMap.ext fun uid => ?_
    show p.action? uid = q.action? uid
    refine eq_of_map_eq (congrFun hcontent uid) fun a b ha hb hab => ?_
    have hlisted : a.parents = b.parents := by
      rw [← parentsOf_of_some ha, ← parentsOf_of_some hb, hparents]
    calc a = { a.unparented with parents := a.parents } := rfl
      _ = { b.unparented with parents := b.parents } := by rw [hab, hlisted]
      _ = b := rfl
  cases p
  cases q
  cases hroots
  cases hmark
  cases hactions
  rfl

section Pieces

variable (hp : p.WellShaped) (hxs : extend r owner p xs = .ok q)

include hp hxs

theorem accepts_pieces_iff : p.Accepts r (xs ++ ys) ↔ q.Accepts r ys := by
  obtain ⟨haccepts, j, hj, hshape, _, hlabels⟩ := extend_ok hp hxs
  have hmapped : ∀ uid, q.mapped uid = j.mapped uid := (relabelled_spreadAll hlabels).sameShape.mapped
  exact (haccepts.append_iff hp hj hshape).trans ⟨fun h => h.congr hmapped,
    fun h => h.congr fun uid => (hmapped uid).symm⟩

/-- Where declarations come in at once and in pieces, the plot comes out the same. -/
theorem eq_of_pieces {once after : Plot} (honce : extend r owner p (xs ++ ys) = .ok once)
    (hafter : extend r owner q ys = .ok after) : once = after := by
  obtain ⟨_, j, hj, hshape, _, hlabels⟩ := extend_ok hp hxs
  have hrelabelled := relabelled_spreadAll hlabels
  have hq : q.WellShaped := hrelabelled.sameShape.wellShaped hshape
  obtain ⟨_, joined, hjoined, _, hmark, hlabels₁⟩ := extend_ok hp honce
  obtain ⟨haccepts₂, joined₂, hjoined₂, _, hmark₂, hlabels₂⟩ := extend_ok hq hafter
  rw [List.foldlM_append, bind_eq_ok] at hlabels₁
  obtain ⟨joined₁, hfirst, hrest⟩ := hlabels₁
  -- the first labels spread beside the new actions as they did without them
  have hjoined₁ : q.Joins ActionDecl.linked ys joined₁ := by
    refine (hjoined.split hj).spreadAll hshape.links (fun d hd => ?_) (fun d hd => ?_) hlabels hfirst
    · exact (hrelabelled.sameShape.mapped d.uid).symm.trans (haccepts₂.fresh d hd)
    · exact (hj.mapped_iff d.uid).mpr (.inl (List.mem_map_of_mem hd))
  have hafterwards₁ := relabelled_spreadAll hrest
  have hafterwards₂ := relabelled_spreadAll hlabels₂
  refine eq_of_content ?_ ?_ ?_ ?_
  · rw [hafterwards₁.roots, hjoined₁.roots, hafterwards₂.roots, hjoined₂.roots]
  · rw [hafterwards₁.validated, (relabelled_spreadAll hfirst).validated, hmark,
      hafterwards₂.validated, hmark₂]
  · exact content_spreadAll (hjoined₁.content_eq hjoined₂) hrest hlabels₂
  · funext uid
    rw [parentsOf_extend hp honce, parentsOf_extend hq hafter, parentsOf_extend hp hxs,
      List.filter_append, List.map_append, List.append_assoc]

/-- **A plot that takes in the first declarations takes in the others after them if and only if it
takes in all at once, and comes out the same.** -/
theorem extend_append : extend r owner p (xs ++ ys) = .ok q' ↔ extend r owner q ys = .ok q' := by
  constructor
  · intro honce
    obtain ⟨after, hafter⟩ : ∃ after, extend r owner q ys = .ok after :=
      ((accepts_pieces_iff hp hxs).mp (extend_ok hp honce).1).extend_succeeds
        (extend_ready hxs).toWellShaped
    rw [hafter, eq_of_pieces hp hxs honce hafter]
  · intro hafter
    obtain ⟨once, honce⟩ : ∃ once, extend r owner p (xs ++ ys) = .ok once :=
      ((accepts_pieces_iff hp hxs).mpr
        (extend_ok (extend_ready hxs).toWellShaped hafter).1).extend_succeeds hp
    rw [honce, eq_of_pieces hp hxs honce hafter]

end Pieces

end Plot

/-! ## The main result -/

namespace Story

variable {s : Story} {name : String} {ds xs : List ActionDecl}

theorem loadActions_ok_iff {c : Character} (hc : s.cast.get? name = some c) :
    (s.loadActions name ds).result = .ok () ↔ ∃ p, Plot.extend s.registry name c.plot ds = .ok p := by
  rw [loadActions_of_some hc]
  cases Plot.extend s.registry name c.plot ds with
  | error e => exact ⟨fun h => (nomatch h), fun ⟨_, h⟩ => (nomatch h)⟩
  | ok p => exact ⟨fun _ => ⟨p, rfl⟩, fun _ => rfl⟩

theorem state_loadActions {c : Character} {p : Plot} (hc : s.cast.get? name = some c)
    (hextend : Plot.extend s.registry name c.plot ds = .ok p) : (s.loadActions name ds).state =
      { s with cast := s.cast.update name fun c => { c with plot := p } } := by
  rw [loadActions_of_some hc, hextend]
  rfl

/-- **Loading in pieces is loading at once.** Once the first declarations of a list are in, the
others can be loaded after them if and only if the whole list could have been loaded instead, and
the story is the same then: the same first actions, links both ways in the same order, conditions
and labels. -/
theorem loadActions_in_pieces (h : Reachable s) (hxs : (s.loadActions name xs).result = .ok ())
    (ys : List ActionDecl) :
    ((s.loadActions name (xs ++ ys)).result = .ok () ↔
      ((s.loadActions name xs).state.loadActions name ys).result = .ok ()) ∧
    ((s.loadActions name (xs ++ ys)).result = .ok () →
      (s.loadActions name (xs ++ ys)).state =
        ((s.loadActions name xs).state.loadActions name ys).state) := by
  obtain ⟨c, p, hc, hextend, hstate⟩ := loadActions_ok hxs
  have hp : c.plot.WellShaped := (h.ready name c hc).toWellShaped
  have hafter :
      ({ s with cast := s.cast.update name fun c => { c with plot := p } } : Story).cast.get? name =
      some { c with plot := p } := by
    show (s.cast.update name _).get? name = _
    rw [Cast.get?_update, if_pos rfl, hc]
    rfl
  rw [hstate, loadActions_ok_iff hc, loadActions_ok_iff hafter]
  refine ⟨exists_congr fun q => Plot.extend_append hp hextend, fun ⟨q, honce⟩ => ?_⟩
  rw [state_loadActions hc honce, state_loadActions hafter ((Plot.extend_append hp hextend).mp honce)]
  -- the second plot takes the place of the first
  show { s with cast := _ } = { s with cast := (s.cast.update name _).update name _ }
  rw [Cast.update_update]

/-- Bob may also go, and then wave. -/
def going : List ActionDecl := [{ ActionDecl.new 4 "Go" with label := some "walk", leadsTo := [1] }]

/-- He may ask something before that. -/
def talking : List ActionDecl :=
  [{ ActionDecl.new 2 "Ask" with first := true, label := some "talk", leadsTo := [1, 4] }]

/-- Waving counts as walking whether talking comes along with going or later. It cannot come earlier. -/
theorem loadActions_in_pieces_going :
    Reachable waving ∧ (waving.loadActions "Bob" going).result = .ok () ∧
    ((waving.loadActions "Bob" going).state.loadActions "Bob" talking).result = .ok () ∧
    (waving.loadActions "Bob" (going ++ talking)).state =
      ((waving.loadActions "Bob" going).state.loadActions "Bob" talking).state ∧
    ((waving.loadActions "Bob" (going ++ talking)).state.cast.get? "Bob").map
      (fun c => (c.plot.labelOf 1, c.plot.parentsOf 1)) = some (some "walk", [4, 2]) ∧
    (waving.loadActions "Bob" talking).result ≠ .ok () := by
  have hreach : Reachable waving := reachable_calls (reachable_start_default _) _
  have hgoing : (waving.loadActions "Bob" going).result = .ok () := rfl
  obtain ⟨hiff, hsame⟩ := loadActions_in_pieces hreach hgoing talking
  have honce : (waving.loadActions "Bob" (going ++ talking)).result = .ok () := rfl
  exact ⟨hreach, hgoing, hiff.mp honce, hsame honce, by decide, by decide⟩

end Story
end Narrative

import Narrative.Proofs.Editing
import Narrative.Proofs.Typing

/-!
# `Proofs.Declaring` — what two passes over declarations make of a plot

Declared actions are mapped in a first pass and linked in a second one, since they may lead to
actions that are declared later. What a pass does is described by the **content** of a plot, which
is everything but the parents of its actions: after both passes, a declared uid has the declared
action with its links, and any other uid has what it had.

The first pass is the one that may fail. Its conditions are about the declarations and the old plot
alone, but it meets them one by one on a plot that grows; that no uid is declared twice comes out
only there.

## Contents
- **Checks.** `ActionDecl.FitsIn`.
- **Content.** `Plot.content`, and what `insert`, `addFirst` and `addChild` do to it.
- **Mapping.** `Joins`; `declareAll_succeeds` and `declareAll_ok`.
- **Linking.** `linkAll_content` and `Joins.linkAll`.
-/

namespace Narrative
open Outcome Relation

/-! ## Checks -/

variable {r : Registry}

theorem Target.checkKind_eq_ok {t : Target} {operand : Value} :
    t.checkKind r operand = .ok () ↔
      ∀ k, r.category? t.category = some k → operand.kind = k.default.kind := by
  unfold checkKind
  cases r.category? t.category with
  | none => exact ⟨fun _ _ h => (nomatch h), fun _ => rfl⟩
  | some k =>
    by_cases hk : operand.kind = k.default.kind
    · simp only [hk, if_true, Option.some.injEq, true_iff]
      rintro _ rfl
      rfl
    · simp only [hk, if_false, Option.some.injEq]
      exact ⟨fun h => (nomatch h), fun h => absurd (h k rfl) hk⟩

theorem Effect.validate_eq_ok {e : Effect} :
    e.validate r = .ok () ↔ ∀ k, r.category? e.category = some k → k.Allows e.op e.value := by
  have hboolean : ((r.category? e.category).any (·.isBoolean) && e.op != .assign) = true ↔
      ∃ k, r.category? e.category = some k ∧ k.isBoolean = true ∧ e.op ≠ .assign := by
    rw [Bool.and_eq_true, Option.any_eq_true, bne_iff_ne]
    exact ⟨fun ⟨⟨k, hk, hb⟩, ho⟩ => ⟨k, hk, hb, ho⟩, fun ⟨k, hk, hb, ho⟩ => ⟨⟨k, hk, hb⟩, ho⟩⟩
  constructor
  · intro h k hk
    obtain ⟨_, hkind, h⟩ := bind_eq_ok.mp h
    refine ⟨Target.checkKind_eq_ok.mp hkind k hk, fun hb => Decidable.byContradiction fun ho => ?_⟩
    change (if _ then _ else _) = _ at h
    rw [if_pos (hboolean.mpr ⟨k, hk, hb, ho⟩)] at h
    cases h
  · intro h
    refine bind_eq_ok.mpr ⟨(), Target.checkKind_eq_ok.mpr fun k hk => (h k hk).1, ?_⟩
    change (if _ then _ else _) = _
    rw [if_neg fun hb => ?_]
    · rfl
    · obtain ⟨k, hk, hb, ho⟩ := hboolean.mp hb
      exact ho ((h k hk).2 hb)

/-- A declaration **fits in** a registry if its conditions are right about what is registered:
operands have the kind of their category, and truth values are only assigned. Of categories that are
not registered nothing is asked. -/
def ActionDecl.FitsIn (r : Registry) (d : ActionDecl) : Prop :=
  (∀ c ∈ d.preconditions, ∀ k, r.category? c.category = some k → c.value.kind = k.default.kind) ∧
  ∀ e ∈ d.effects, ∀ k, r.category? e.category = some k → k.Allows e.op e.value

/-! ## Content -/

/-- The action without its parents. -/
def Action.unparented (a : Action) : Action := { a with parents := [] }

/-- The action with one more child, unless it has that child. -/
def Action.withChild (a : Action) (child : Uid) : Action :=
  { a with children := if a.children.contains child then a.children else a.children ++ [child] }

/-- The declared action with its links; a child that is named again is linked once. -/
def ActionDecl.linked (d : ActionDecl) : Action := { d.toAction with children := d.leadsTo.eraseDups }

namespace Plot

variable {p q : Plot} {uid : Uid}

/-- The **content** of a plot at a uid: the action there without its parents, which follow from the
children of others. -/
def content (p : Plot) (uid : Uid) : Option Action := (p.action? uid).map Action.unparented

theorem mapped_eq_content (p : Plot) (uid : Uid) : p.mapped uid = (p.content uid).isSome :=
  Option.isSome_map.symm

theorem childrenOf_eq_content (p : Plot) (uid : Uid) :
    p.childrenOf uid = ((p.content uid).map (·.children)).getD [] := by
  unfold childrenOf content
  rw [Option.map_map]
  rfl

theorem insert_eq_ok {a : Action} (h : p.insert a = .ok q) :
    p.mapped a.uid = false ∧ q.roots = p.roots ∧
      ∀ uid, q.content uid = if uid = a.uid then some { a with children := [], parents := [] }
        else p.content uid := by
  unfold insert at h
  split at h
  · cases h
  · next hnew =>
    cases h
    refine ⟨Bool.eq_false_iff.mpr hnew, rfl, fun uid => ?_⟩
    show ((p.actions.insert a.uid _).get? uid).map _ = _
    rw [SortedMap.get?_insert]
    split <;> rfl

theorem insert_succeeds {a : Action} (h : p.mapped a.uid = false) : ∃ q, p.insert a = .ok q := by
  unfold insert
  rw [h]
  exact ⟨_, rfl⟩

theorem content_addFirst (p : Plot) (first uid : Uid) :
    (p.addFirst first).content uid = p.content uid := by
  unfold addFirst
  split <;> rfl

theorem roots_addFirst {first : Uid} (h : first ∉ p.roots) :
    (p.addFirst first).roots = p.roots ++ [first] := by
  unfold addFirst
  rw [if_neg fun hmem => h (List.contains_iff_mem.mp hmem)]

/-- Edits of parents do not show in the content. -/
theorem content_updateAction (p : Plot) (uid : Uid) {f : Action → Action}
    (hf : ∀ a, (f a).unparented = a.unparented) (uid' : Uid) :
    (p.updateAction uid f).content uid' = p.content uid' := by
  unfold content
  rw [action?_updateAction]
  split
  · next huid =>
    rw [huid, Option.map_map]
    exact congrArg (Option.map · _) (funext hf)
  · rfl

/-- An edit of one action takes none out and brings none in. -/
theorem mapped_of_content {edited : Uid} {f : Action → Action}
    (h : ∀ uid, q.content uid = if uid = edited then (p.content uid).map f else p.content uid)
    (uid : Uid) :
    q.mapped uid = p.mapped uid := by
  rw [mapped_eq_content, h, mapped_eq_content]
  split
  · exact Option.isSome_map
  · rfl

/-- A link changes one action, and the parents of another. -/
theorem addChild_content {parent : Uid} (child : Uid) (h : p.mapped parent = true) :
    ∃ q, p.addChild parent child = .ok q ∧
    q.roots = p.roots ∧
    ∀ uid, q.content uid = if uid = parent then (p.content uid).map (·.withChild child)
      else p.content uid := by
  obtain ⟨a, ha⟩ := mapped_iff.mp h
  unfold addChild
  rw [ha]
  by_cases hchild : a.children.contains child = true
  · refine ⟨p, if_pos hchild, rfl, fun uid => ?_⟩
    split
    · next huid =>
      -- the child is there already
      unfold content Action.withChild
      rw [huid, ha]
      simp only [Option.map_some, Action.unparented, hchild, if_true]
    · rfl
  · let linked : Plot :=
      { p with
        actions := p.actions.insert parent { a with children := a.children ++ [child] }
        validated := false }
    refine ⟨linked.updateAction child fun c => { c with parents := c.parents ++ [parent] },
      if_neg hchild, rfl, ?_⟩
    intro uid
    rw [content_updateAction]
    · show ((p.actions.insert parent _).get? uid).map _ = _
      rw [SortedMap.get?_insert]
      split
      · next huid =>
        unfold content Action.withChild
        rw [huid, ha]
        simp only [Option.map_some, Action.unparented, hchild, Bool.false_eq_true, if_false]
      · rfl
    · exact fun _ => rfl

/-! ## Mapping -/

variable {owner : String} {d : ActionDecl} {ds : List ActionDecl}

/-- All first actions of the plot are mapped. -/
def RootsMapped (p : Plot) : Prop := ∀ uid ∈ p.roots, p.mapped uid = true

theorem declare_eq_ok : declare r owner p d = .ok q ↔
    d.FitsIn r ∧ ∃ q₀, p.insert d.toAction = .ok q₀ ∧ q = if d.first then q₀.addFirst d.uid else q₀ := by
  constructor
  · intro h
    obtain ⟨_, hpre, h⟩ := bind_eq_ok.mp h
    obtain ⟨_, heff, h⟩ := bind_eq_ok.mp h
    obtain ⟨q₀, hq₀, h⟩ := bind_eq_ok.mp h
    rw [mapError_eq_ok] at hpre heff hq₀
    cases h
    exact ⟨⟨fun c hc => Target.checkKind_eq_ok.mp (forM_eq_ok.mp hpre c hc),
      fun e he => Effect.validate_eq_ok.mp (forM_eq_ok.mp heff e he)⟩, q₀, hq₀, rfl⟩
  · rintro ⟨⟨hpre, heff⟩, q₀, hq₀, rfl⟩
    refine bind_eq_ok.mpr ⟨(), mapError_eq_ok.mpr (forM_eq_ok.mpr fun c hc => ?_), ?_⟩
    · exact Target.checkKind_eq_ok.mpr (hpre c hc)
    refine bind_eq_ok.mpr ⟨(), mapError_eq_ok.mpr (forM_eq_ok.mpr fun e he => ?_), ?_⟩
    · exact Effect.validate_eq_ok.mpr (heff e he)
    exact bind_eq_ok.mpr ⟨q₀, mapError_eq_ok.mpr hq₀, rfl⟩

/-- A plot that **joins** declarations to another: the first ones among them come after the first
actions, each declared uid has what `f` makes of the declaration, and all other uids have what they
had. -/
structure Joins (p : Plot) (f : ActionDecl → Action) (ds : List ActionDecl) (q : Plot) : Prop where
  roots : q.roots = p.roots ++ (ds.filter (·.first)).map (·.uid)
  new : ∀ d ∈ ds, q.content d.uid = some (f d)
  old : ∀ uid ∉ ds.map (·.uid), q.content uid = p.content uid

theorem joins_nil (p : Plot) (f : ActionDecl → Action) : p.Joins f [] p :=
  ⟨(List.append_nil _).symm, fun _ hd => absurd hd List.not_mem_nil, fun _ _ => rfl⟩

theorem Joins.mapped_iff {f : ActionDecl → Action} (h : p.Joins f ds q) (uid : Uid) :
    q.mapped uid = true ↔ uid ∈ ds.map (·.uid) ∨ p.mapped uid = true := by
  by_cases huid : uid ∈ ds.map (·.uid)
  · obtain ⟨d, hd, rfl⟩ := List.mem_map.mp huid
    rw [mapped_eq_content, h.new d hd]
    exact ⟨fun _ => .inl huid, fun _ => rfl⟩
  · rw [mapped_eq_content, h.old uid huid, ← mapped_eq_content]
    exact ⟨.inr, fun hmapped => hmapped.resolve_left huid⟩

/-- Where all declared uids are new, an old one is not declared. -/
theorem not_declared_of_mapped (hfresh : ∀ d ∈ ds, p.mapped d.uid = false) (h : p.mapped uid = true) :
    uid ∉ ds.map (·.uid) := by
  intro hmem
  obtain ⟨d, hd, rfl⟩ := List.mem_map.mp hmem
  exact absurd h (Bool.eq_false_iff.mp (hfresh d hd))

/-- What joins one declaration and then others joins them all, if the one is not declared again. -/
theorem Joins.cons {f : ActionDecl → Action} {q' : Plot} (h : p.Joins f [d] q) (h' : q.Joins f ds q')
    (hother : d.uid ∉ ds.map (·.uid)) : p.Joins f (d :: ds) q' where
  roots := by
    rw [h'.roots, h.roots, List.append_assoc, ← List.map_append, ← List.filter_append]
    rfl
  new := by
    refine List.forall_mem_cons.mpr ⟨?_, h'.new⟩
    rw [h'.old _ hother]
    exact h.new d (List.mem_singleton_self d)
  old := by
    intro uid huid
    obtain ⟨hne, huid⟩ := List.ne_and_not_mem_of_not_mem_cons huid
    rw [h'.old uid huid]
    exact h.old uid fun hmem => hne (List.mem_singleton.mp hmem)

/-- What one declaration asks for and adds. -/
theorem declare_ok (hroots : p.RootsMapped) (h : declare r owner p d = .ok q) :
    d.FitsIn r ∧ p.mapped d.uid = false ∧ p.Joins ActionDecl.toAction [d] q := by
  obtain ⟨hfits, q₀, hinsert, rfl⟩ := declare_eq_ok.mp h
  obtain ⟨hnew, hq₀, hcontent⟩ := insert_eq_ok hinsert
  -- a uid that was not mapped was no first action either
  have hfirst : d.uid ∉ q₀.roots := fun hmem => by
    rw [hq₀] at hmem
    exact absurd (hroots _ hmem) (Bool.eq_false_iff.mp hnew)
  have hinserted : ∀ uid, (if d.first then q₀.addFirst d.uid else q₀).content uid =
      if uid = d.uid then some d.toAction else p.content uid := by
    intro uid
    split
    · rw [content_addFirst]
      exact hcontent uid
    · exact hcontent uid
  refine ⟨hfits, hnew, ?_, fun d' hd' => ?_, fun uid huid => ?_⟩
  · cases hd : d.first with
    | true => rw [if_pos rfl, roots_addFirst hfirst, hq₀, List.filter_cons_of_pos hd]; rfl
    | false =>
      rw [if_neg Bool.false_ne_true, hq₀, List.filter_cons_of_neg (Bool.eq_false_iff.mp hd)]; simp
  · obtain rfl := List.mem_singleton.mp hd'
    rw [hinserted, if_pos rfl]
  · rw [hinserted, if_neg fun heq => huid (List.mem_singleton.mpr heq)]

theorem declare_succeeds (hfits : d.FitsIn r) (hnew : p.mapped d.uid = false) :
    ∃ q, declare r owner p d = .ok q := by
  obtain ⟨q₀, hq₀⟩ := insert_succeeds (a := d.toAction) hnew
  exact ⟨_, declare_eq_ok.mpr ⟨hfits, q₀, hq₀, rfl⟩⟩

theorem Joins.rootsMapped {f : ActionDecl → Action} (h : p.Joins f ds q) (hroots : p.RootsMapped) :
    q.RootsMapped := by
  intro uid huid
  rw [h.mapped_iff]
  rw [h.roots, List.mem_append] at huid
  rcases huid with hold | hfirst
  · exact .inr (hroots uid hold)
  · exact .inl (List.map_subset _ (List.filter_subset_self _) hfirst)

/-- Declarations are mapped if they fit in and their uids are new and different. -/
theorem declareAll_succeeds (hroots : p.RootsMapped) (hfit : ∀ d ∈ ds, d.FitsIn r)
    (hdistinct : (ds.map (·.uid)).Nodup) (hfresh : ∀ d ∈ ds, p.mapped d.uid = false) :
    ∃ q, ds.foldlM (declare r owner) p = .ok q := by
  induction ds generalizing p with
  | nil => exact ⟨p, rfl⟩
  | cons d ds ih =>
    rw [List.forall_mem_cons] at hfit hfresh
    obtain ⟨hother, hdistinct⟩ := List.nodup_cons.mp hdistinct
    rw [List.foldlM_cons]
    refine bind_succeeds (declare_succeeds hfit.1 hfresh.1) fun q hq => ?_
    obtain ⟨_, _, hjoins⟩ := declare_ok hroots hq
    refine ih (hjoins.rootsMapped hroots) hfit.2 hdistinct fun d' hd' => ?_
    -- the uid of `d` is not declared again
    refine Bool.eq_false_iff.mpr fun hmapped => ?_
    rcases (hjoins.mapped_iff _).mp hmapped with heq | hold
    · exact hother (List.mem_map.mpr ⟨d', hd', List.mem_singleton.mp heq⟩)
    · exact absurd hold (Bool.eq_false_iff.mp (hfresh.2 d' hd'))

/-- **What the first pass asks for and adds**: it succeeds only on declarations that fit in and have
new and different uids, and maps them without their links. -/
theorem declareAll_ok (hroots : p.RootsMapped) (h : ds.foldlM (declare r owner) p = .ok q) :
    (∀ d ∈ ds, d.FitsIn r) ∧ (ds.map (·.uid)).Nodup ∧ (∀ d ∈ ds, p.mapped d.uid = false) ∧
      p.Joins ActionDecl.toAction ds q := by
  induction ds generalizing p with
  | nil =>
    cases h
    exact ⟨fun _ hd => absurd hd List.not_mem_nil, List.nodup_nil,
      fun _ hd => absurd hd List.not_mem_nil, joins_nil _ _⟩
  | cons d ds ih =>
    rw [List.foldlM_cons, bind_eq_ok] at h
    obtain ⟨q₁, hd, hds⟩ := h
    obtain ⟨hfits, hnew, hone⟩ := declare_ok hroots hd
    obtain ⟨hfit, hdistinct, hfresh, hrest⟩ := ih (hone.rootsMapped hroots) hds
    -- `d` is mapped by now, so no later declaration has its uid
    have hother : d.uid ∉ ds.map (·.uid) :=
      not_declared_of_mapped hfresh ((hone.mapped_iff _).mpr (.inl (List.mem_singleton_self _)))
    have hold : ∀ d' ∈ ds, p.mapped d'.uid = false := fun d' hd' => Bool.eq_false_iff.mpr fun hmapped =>
      absurd ((hone.mapped_iff _).mpr (.inr hmapped)) (Bool.eq_false_iff.mp (hfresh d' hd'))
    exact ⟨List.forall_mem_cons.mpr ⟨hfits, hfit⟩, List.nodup_cons.mpr ⟨hother, hdistinct⟩,
      List.forall_mem_cons.mpr ⟨hnew, hold⟩, hone.cons hrest hother⟩

/-! ## Linking -/

/-- One more link to where there may be one already. -/
theorem eraseDups_concat (linked : List Uid) (child : Uid) : (linked ++ [child]).eraseDups =
    if linked.eraseDups.contains child then linked.eraseDups else linked.eraseDups ++ [child] := by
  rw [List.eraseDups_append]
  by_cases h : child ∈ linked
  · simp [h, List.cons_removeAll]
  · simp [h, List.cons_removeAll, List.eraseDups_cons]

/-- Children are linked in order, each one once. -/
theorem foldl_withChild (a : Action) (linked children : List Uid) :
    children.foldl Action.withChild { a with children := linked.eraseDups } =
      { a with children := (linked ++ children).eraseDups } := by
  induction children generalizing linked with
  | nil => rw [List.append_nil]; rfl
  | cons child children ih =>
    rw [List.append_cons, ← ih, eraseDups_concat]
    rfl

theorem linked_eq (d : ActionDecl) : d.leadsTo.foldl Action.withChild d.toAction = d.linked :=
  foldl_withChild d.toAction [] d.leadsTo

/-- The links of one action. -/
theorem addChildren_content {parent : Uid} (children : List Uid) (h : p.mapped parent = true) :
    ∃ q, children.foldlM (·.addChild parent ·) p = .ok q ∧ q.roots = p.roots ∧ ∀ uid, q.content uid =
      if uid = parent then (p.content uid).map (children.foldl Action.withChild ·)
        else p.content uid := by
  induction children generalizing p with
  | nil => exact ⟨p, rfl, rfl, fun uid => by simp⟩
  | cons child children ih =>
    obtain ⟨q₁, hchild, hroots₁, hcontent₁⟩ := addChild_content child h
    obtain ⟨q, hchildren, hroots, hcontent⟩ := ih ((mapped_of_content hcontent₁ parent).trans h)
    refine ⟨q, ?_, hroots.trans hroots₁, fun uid => ?_⟩
    · rw [List.foldlM_cons, bind_eq_ok]
      exact ⟨q₁, hchild, hchildren⟩
    · rw [hcontent, hcontent₁]
      split
      · rw [Option.map_map]; rfl
      · rfl

/-- **Linking never fails** where the declarations are mapped, and gives each of them its children. -/
theorem linkAll_content (hdistinct : (ds.map (·.uid)).Nodup) (h : ∀ d ∈ ds, p.mapped d.uid = true) :
    ∃ q, ds.foldlM link p = .ok q ∧ q.roots = p.roots ∧
      (∀ d ∈ ds, q.content d.uid = (p.content d.uid).map (d.leadsTo.foldl Action.withChild ·)) ∧
      ∀ uid ∉ ds.map (·.uid), q.content uid = p.content uid := by
  induction ds generalizing p with
  | nil => exact ⟨p, rfl, rfl, fun _ hd => absurd hd List.not_mem_nil, fun _ _ => rfl⟩
  | cons d ds ih =>
    obtain ⟨hother, hdistinct⟩ := List.nodup_cons.mp hdistinct
    obtain ⟨hd, hds⟩ := List.forall_mem_cons.mp h
    obtain ⟨q₁, hlink, hroots₁, hcontent₁⟩ := addChildren_content d.leadsTo hd
    have hmapped : ∀ d' ∈ ds, q₁.mapped d'.uid = true := fun d' hd' =>
      (mapped_of_content hcontent₁ d'.uid).trans (hds d' hd')
    obtain ⟨q, hlinks, hroots, hnew, hold⟩ := ih hdistinct hmapped
    refine ⟨q, ?_, hroots.trans hroots₁, List.forall_mem_cons.mpr ⟨?_, fun d' hd' => ?_⟩,
      fun uid huid => ?_⟩
    · rw [List.foldlM_cons, bind_eq_ok]
      exact ⟨q₁, hlink, hlinks⟩
    · rw [hold _ hother, hcontent₁, if_pos rfl]
    · rw [hnew d' hd', hcontent₁, if_neg fun heq => hother (List.mem_map.mpr ⟨d', hd', heq⟩)]
    · obtain ⟨hne, huid⟩ := List.ne_and_not_mem_of_not_mem_cons huid
      rw [hold uid huid, hcontent₁, if_neg hne]

/-- After both passes the declared actions have their links. -/
theorem Joins.linkAll {q : Plot} (h : p.Joins ActionDecl.toAction ds q)
    (hdistinct : (ds.map (·.uid)).Nodup) :
    ∃ q', ds.foldlM link q = .ok q' ∧ p.Joins ActionDecl.linked ds q' := by
  obtain ⟨q', hlinks, hroots, hnew, hold⟩ := linkAll_content hdistinct fun d hd =>
    (h.mapped_iff d.uid).mpr (.inl (List.mem_map_of_mem hd))
  refine ⟨q', hlinks, hroots.trans h.roots, fun d hd => ?_,
    fun uid huid => (hold uid huid).trans (h.old uid huid)⟩
  rw [hnew d hd, h.new d hd, Option.map_some, linked_eq]

end Plot
end Narrative

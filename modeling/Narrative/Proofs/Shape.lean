import Mathlib.Data.Finset.Card
import Mathlib.Data.List.Perm.Subperm
import Mathlib.Logic.Relation
import Narrative.Discovery
import Narrative.Proofs.Outcome

/-!
# `Proofs.Shape` — what validation promises to those who walk a plot

A walk down a plot is bounded by the number of actions. On any plot that is a safe bound, but only on one
of the right shape does it never cut a walk short. The argument has two halves:

* a search that finds no cycle leaves its uids **settled**, each one behind all that it leads to, and
  what is settled leads nowhere back to itself;
* where nothing leads back to itself, the actions **above** a uid are all different, so there are fewer
  of them than the bound.

The search itself is bounded by the uids that are not on its path yet, and there are fewer of them
at each step down.

## Contents
- **Shapes.** `Leads`, `Acyclic`, `WellShaped`; `length_le_size`.
- **The search for cycles.** `Settled`, `OffPath`, `walk_settles`, `acyclic_of_findCycle?`.
- **Validation.** `validate_ok`.
- **Depth.** `Above`, and `Descends` for recursions over the children; `explore_of_size_le`.
-/

namespace Narrative
open Outcome Relation

namespace Plot

variable {p : Plot} {uid : Uid}

/-! ## Shapes -/

/-- `p.Leads a b` says that `b` may follow `a`. -/
def Leads (p : Plot) (a b : Uid) : Prop := b ∈ p.childrenOf a

/-- No action leads back to itself. -/
def Acyclic (p : Plot) : Prop := ∀ a, ¬TransGen p.Leads a a

/-- A plot is **well-shaped** if its first actions and all links are mapped and no action leads back to
itself. -/
structure WellShaped (p : Plot) : Prop where
  roots : ∀ uid ∈ p.roots, p.mapped uid = true
  links : ∀ a b, p.Leads a b → p.mapped b = true
  acyclic : p.Acyclic

theorem mapped_iff : p.mapped uid = true ↔ ∃ a, p.action? uid = some a := Option.isSome_iff_exists

theorem childrenOf_of_some {a : Action} (ha : p.action? uid = some a) :
    p.childrenOf uid = a.children := by
  unfold childrenOf; rw [ha]; rfl

theorem leads_of_mem {a : Action} {child : Uid} (ha : p.action? uid = some a)
    (hchild : child ∈ a.children) :
    p.Leads uid child := by
  unfold Leads
  rw [childrenOf_of_some ha]
  exact hchild

theorem action?_of_unmapped (h : p.mapped uid = false) : p.action? uid = none :=
  Option.not_isSome_iff_eq_none.mp (Bool.eq_false_iff.mp h)

/-- Only mapped actions lead anywhere. -/
theorem Leads.mapped {b : Uid} (h : p.Leads uid b) : p.mapped uid = true := by
  cases ha : p.action? uid with
  | some a => exact mapped_iff.mpr ⟨a, ha⟩
  | none =>
    unfold Leads childrenOf at h
    rw [ha] at h
    exact absurd h List.not_mem_nil

theorem mem_keys_of_mapped (h : p.mapped uid = true) : uid ∈ p.actions.keys := SortedMap.mem_keys.mpr h

/-- Different mapped uids are no more than there are actions. -/
theorem length_le_size {path : List Uid} (hpath : path.Nodup)
    (hmapped : ∀ uid ∈ path, p.mapped uid = true) :
    path.length ≤ p.size := by
  have hsub : path ⊆ p.actions.keys := fun uid huid => mem_keys_of_mapped (hmapped uid huid)
  calc path.length
      ≤ p.actions.keys.length := (List.subperm_of_subset hpath hsub).length_le
    _ = p.size := List.length_map _

/-! ## The search for cycles -/

/-- Uids are **settled** if each leads only to uids further back in the list. -/
inductive Settled (p : Plot) : List Uid → Prop where
  | nil : Settled p []
  | cons {a : Uid} {clean : List Uid} (h : Settled p clean) (ha : ∀ b, p.Leads a b → b ∈ clean) :
    Settled p (a :: clean)

/-- What a settled uid leads to is settled too. -/
theorem Settled.closed {clean : List Uid} (h : Settled p clean) {a b : Uid} (ha : a ∈ clean)
    (hab : TransGen p.Leads a b) : b ∈ clean := by
  have hlink : ∀ a ∈ clean, ∀ b, p.Leads a b → b ∈ clean := by
    clear hab ha
    induction h with
    | nil => exact fun _ ha => absurd ha List.not_mem_nil
    | cons _ hchildren ih =>
      intro a ha b hab
      rcases List.mem_cons.mp ha with rfl | ha
      · exact List.mem_cons_of_mem _ (hchildren b hab)
      · exact List.mem_cons_of_mem _ (ih a ha b hab)
  induction hab with
  | single hab => exact hlink _ ha _ hab
  | tail _ hbc ih => exact hlink _ ih _ hbc

/-- A settled uid does not lead back to itself. -/
theorem Settled.acyclic {clean : List Uid} (h : Settled p clean) :
    ∀ a ∈ clean, ¬TransGen p.Leads a a := by
  induction h with
  | nil => exact fun _ ha => absurd ha List.not_mem_nil
  | @cons a clean h hchildren ih =>
    intro a' ha' hloop
    rcases List.mem_cons.mp ha' with rfl | ha'
    · -- the way back passes through a child, and from there on stays in the rest
      obtain ⟨b, hab, hback⟩ := TransGen.head'_iff.mp hloop
      have hb : b ∈ clean := hchildren b hab
      rcases ReflTransGen.cases_head hback with rfl | ⟨c, hbc, hca⟩
      · exact ih _ hb hloop
      · exact ih _ (h.closed hb (TransGen.head' hbc hca)) hloop
    · exact ih a' ha' hloop

/-- The mapped uids that are not on a path. -/
def OffPath (p : Plot) (path : List Uid) : Finset Uid := p.actions.keys.toFinset \ path.toFinset

theorem card_offPath_le (p : Plot) (path : List Uid) : (p.OffPath path).card ≤ p.size :=
  calc (p.OffPath path).card
      ≤ p.actions.keys.toFinset.card := Finset.card_le_card Finset.sdiff_subset
    _ ≤ p.actions.keys.length := List.toFinset_card_le _
    _ = p.size := List.length_map _

/-- A path that has grown leaves one uid less to go through. -/
theorem card_offPath_lt (hnew : uid ∉ path) (huid : p.mapped uid = true) :
    (p.OffPath (path ++ [uid])).card < (p.OffPath path).card := by
  have hmem : uid ∈ p.OffPath path := by
    simp only [OffPath, Finset.mem_sdiff, List.mem_toFinset]
    exact ⟨mem_keys_of_mapped huid, hnew⟩
  have herase : p.OffPath (path ++ [uid]) = (p.OffPath path).erase uid := by
    ext a
    simp only [OffPath, Finset.mem_sdiff, Finset.mem_erase, List.mem_toFinset, List.mem_append,
      List.mem_singleton]
    tauto
  rw [herase]
  exact Finset.card_erase_lt_of_mem hmem

/-- A search over several uids settles them all if the search for each one settles it. -/
theorem settles_each {ε : Type} {f : List Uid → Uid → Except ε (List Uid)} {uids clean clean' : List Uid}
    (hstep : ∀ uid ∈ uids, ∀ c c', Settled p c → f c uid = .ok c' → Settled p c' ∧ c ⊆ c' ∧ uid ∈ c')
    (hclean : Settled p clean) (h : uids.foldlM f clean = .ok clean') :
    Settled p clean' ∧ clean ⊆ clean' ∧ uids ⊆ clean' := by
  induction uids generalizing clean with
  | nil =>
    cases h
    exact ⟨hclean, List.Subset.refl _, List.nil_subset _⟩
  | cons uid uids ih =>
    rw [List.foldlM_cons, bind_eq_ok] at h
    obtain ⟨c, hc, h⟩ := h
    obtain ⟨hsettled, hsub, huid⟩ := hstep uid List.mem_cons_self clean c hclean hc
    obtain ⟨hsettled', hsub', huids⟩ := ih (fun u hu => hstep u (List.mem_cons_of_mem _ hu)) hsettled h
    exact ⟨hsettled', List.Subset.trans hsub hsub', List.cons_subset.mpr ⟨hsub' huid, huids⟩⟩

/-- **A search that meets no uid of its path again settles what it has seen.** The depth is never used
up: it exceeds the number of uids that are left to go through. -/
theorem walk_settles {depth : Nat} {path clean clean' : List Uid}
    (hdepth : (p.OffPath path).card < depth) (hclean : Settled p clean)
    (h : p.walk depth path clean uid = .ok clean') :
    Settled p clean' ∧ clean ⊆ clean' ∧ uid ∈ clean' := by
  induction depth generalizing path clean clean' uid with
  | zero => exact absurd hdepth (Nat.not_lt_zero _)
  | succ depth ih =>
    unfold walk at h
    by_cases hon : path.contains uid = true
    · rw [if_pos hon] at h; cases h
    · rw [if_neg hon] at h
      by_cases hseen : clean.contains uid = true
      · rw [if_pos hseen] at h
        cases h
        exact ⟨hclean, List.Subset.refl _, List.contains_iff_mem.mp hseen⟩
      · rw [if_neg hseen] at h
        obtain ⟨below, hbelow, h⟩ := bind_eq_ok.mp h
        cases h
        have hnew : uid ∉ path := fun hmem => hon (List.contains_iff_mem.mpr hmem)
        obtain ⟨hsettled, hsub, hchildren⟩ := settles_each (fun child hchild c c' hc hwalk => by
          -- `uid` leads to `child`, so it is mapped and was still to go through
          have hless := card_offPath_lt hnew (Leads.mapped (show p.Leads uid child from hchild))
          exact ih (by omega) hc hwalk) hclean hbelow
        have hgrown : clean ⊆ uid :: below := List.Subset.trans hsub (List.subset_cons_self _ _)
        exact ⟨hsettled.cons fun b hb => hchildren hb, hgrown, List.mem_cons_self⟩

/-- **Where no cycle is found there is none.** -/
theorem acyclic_of_findCycle? (h : p.findCycle? = none) : p.Acyclic := by
  unfold findCycle? at h
  split at h
  · cases h
  · next clean hclean =>
    obtain ⟨hsettled, _, hall⟩ := settles_each (fun start _ c c' hc hwalk =>
      walk_settles (Nat.lt_succ_of_le (card_offPath_le p [])) hc hwalk) .nil hclean
    intro a hloop
    -- an action on a cycle has a child, so it is mapped and the search has started from it
    obtain ⟨b, hab, _⟩ := TransGen.head'_iff.mp hloop
    have ha : a ∈ clean := hall (List.mem_append_right _ (mem_keys_of_mapped hab.mapped))
    exact hsettled.acyclic a ha hloop

/-! ## Validation -/

theorem links_of_danglingLinks (h : p.danglingLinks = []) {a b : Uid} (hab : p.Leads a b) :
    p.mapped b = true := by
  obtain ⟨action, haction⟩ := mapped_iff.mp hab.mapped
  have hb : b ∈ action.children := childrenOf_of_some haction ▸ hab
  have hvalue : action ∈ p.actions.values :=
    List.mem_map.mpr ⟨_, SortedMap.get?_eq_some_iff.mp haction, rfl⟩
  refine Decidable.byContradiction fun hunmapped => ?_
  have hdangling : (action.uid, b) ∈ p.danglingLinks := by
    refine List.mem_flatMap.mpr ⟨action, hvalue, List.mem_map.mpr ⟨b, List.mem_filter.mpr ⟨hb, ?_⟩, rfl⟩⟩
    rw [Bool.not_eq_true] at hunmapped
    rw [hunmapped]; rfl
  rw [h] at hdangling
  exact List.not_mem_nil hdangling

theorem wellShaped_of_fault? (h : p.fault? = none) : p.WellShaped := by
  unfold fault? at h
  split at h
  · cases h
  · next hroots =>
    split at h
    · cases h
    · next hlinks =>
      refine ⟨?_, ?_, ?_⟩
      · intro uid huid
        have hmapped := List.find?_eq_none.mp hroots uid huid
        simpa using hmapped
      · intro a b hab
        exact links_of_danglingLinks hlinks hab
      · exact acyclic_of_findCycle? (Option.map_eq_none_iff.mp h)

/-- **Validation changes the mark alone, and gives it only to well-shaped plots.** -/
theorem validate_ok {p' : Plot} (h : p.validate = .ok p') :
    p' = { p with validated := true } ∧ p.WellShaped := by
  unfold validate at h
  split at h
  · cases h
  · next hfault =>
    cases h
    exact ⟨rfl, wellShaped_of_fault? hfault⟩

/-! ## Depth -/

/-- Different actions **above** a uid: each of them leads to it, at once or through others. -/
structure Above (p : Plot) (above : List Uid) (uid : Uid) : Prop where
  nodup : above.Nodup
  leads : ∀ a ∈ above, TransGen p.Leads a uid

theorem above_nil (p : Plot) (uid : Uid) : p.Above [] uid :=
  ⟨List.nodup_nil, fun _ ha => absurd ha List.not_mem_nil⟩

/-- Where nothing leads back to itself, a uid is not above itself. -/
theorem Above.not_mem {above : List Uid} (h : p.Above above uid) (hp : p.Acyclic) : uid ∉ above :=
  fun hmem => hp uid (h.leads uid hmem)

/-- Above a child are the action that leads to it and all that is above that action. -/
theorem Above.child {above : List Uid} {child : Uid} (h : p.Above above uid) (hp : p.Acyclic)
    (hchild : p.Leads uid child) : p.Above (uid :: above) child := by
  have hnodup : (uid :: above).Nodup := List.nodup_cons.mpr ⟨h.not_mem hp, h.nodup⟩
  refine ⟨hnodup, ?_⟩
  intro a ha
  rcases List.mem_cons.mp ha with rfl | ha
  · exact .single hchild
  · exact (h.leads a ha).tail hchild

/-- There are fewer actions above a mapped uid than there are actions. -/
theorem Above.length_lt {above : List Uid} (h : p.Above above uid) (hp : p.Acyclic)
    (huid : p.mapped uid = true) :
    above.length < p.size := by
  have hnodup : (uid :: above).Nodup := List.nodup_cons.mpr ⟨h.not_mem hp, h.nodup⟩
  refine length_le_size hnodup fun a ha => ?_
  rcases List.mem_cons.mp ha with rfl | ha
  · exact huid
  · obtain ⟨b, hab, _⟩ := TransGen.head'_iff.mp (h.leads a ha)
    exact hab.mapped

/-- A recursion **descends** a plot if, below a depth that is left, it only looks at the children,
and stops at uids that are not mapped. -/
structure Descends {β : Type} (p : Plot) (f : Nat → Uid → β) : Prop where
  stop : ∀ uid, p.mapped uid = false → f 1 uid = f 0 uid
  step : ∀ depth depth' uid, (∀ child, p.Leads uid child → f depth child = f depth' child) →
    f (depth + 1) uid = f (depth' + 1) uid

/-- Together with the actions above, the depth that is left exceeds every way down, so one more changes
nothing. -/
theorem Descends.succ {β : Type} {f : Nat → Uid → β} (h : p.Descends f) (hp : p.Acyclic)
    {depth : Nat} {above : List Uid} (habove : p.Above above uid)
    (hdepth : p.size ≤ depth + above.length) : f (depth + 1) uid = f depth uid := by
  induction depth generalizing above uid with
  | zero =>
    refine h.stop uid (Bool.eq_false_iff.mpr fun huid => ?_)
    -- no depth is left, but then there would be more actions above than there are
    have hlen := habove.length_lt hp huid
    omega
  | succ depth ih =>
    refine h.step (depth + 1) depth uid fun child hchild => ?_
    exact ih (habove.child hp hchild) (by rw [List.length_cons]; omega)

/-- **The number of actions is depth enough.** On a plot without cycles no way down is cut short by the
bound: a larger one gives the same. -/
theorem Descends.of_size_le {β : Type} {f : Nat → Uid → β} (h : p.Descends f) (hp : p.Acyclic)
    {depth : Nat} (hdepth : p.size ≤ depth) (uid : Uid) : f depth uid = f p.size uid := by
  induction hdepth with
  | refl => rfl
  | step hdepth ih =>
    rw [← ih]
    exact h.succ hp (p.above_nil uid) (Nat.le_trans hdepth (Nat.le_add_right _ _))

theorem descends_pathsFrom (p : Plot) : p.Descends p.pathsFrom := by
  refine ⟨fun uid huid => ?_, fun depth depth' uid hchildren => ?_⟩
  · rw [pathsFrom, pathsFrom, action?_of_unmapped huid]
  · rw [pathsFrom, pathsFrom]
    cases ha : p.action? uid with
    | none => rfl
    | some a =>
      have hpaths : a.children.flatMap (p.pathsFrom depth) = a.children.flatMap (p.pathsFrom depth') :=
        List.flatMap_congr fun child hchild => hchildren child (leads_of_mem ha hchild)
      simp only [hpaths]

end Plot

namespace Discovery

variable {ω : Type} [World ω] {p : Plot}

theorem descends_explore (r : Registry) (w : ω) (p : Plot) : p.Descends (explore r w p) := by
  refine ⟨fun uid huid => ?_, fun depth depth' uid hchildren => ?_⟩
  · funext walk
    rw [explore, explore, Plot.action?_of_unmapped huid]
  · funext walk
    rw [explore, explore]
    cases ha : p.action? uid with
    | none => rfl
    | some a =>
      have hbranches : ∀ entered, (a.children.mapM fun child => explore r w p depth child entered) =
          a.children.mapM fun child => explore r w p depth' child entered := fun entered =>
        mapM_agree fun child hchild => congrFun (hchildren child (Plot.leads_of_mem ha hchild)) entered
      simp only [hbranches]

/-- On a plot without cycles no walk is cut short by the bound. -/
theorem explore_of_size_le (r : Registry) (w : ω) (hp : p.Acyclic) {depth : Nat}
    (hdepth : p.size ≤ depth) (uid : Uid) (walk : Walk ω) :
    explore r w p depth uid walk = explore r w p p.size uid walk :=
  congrFun ((descends_explore r w p).of_size_le hp hdepth uid) walk

end Discovery

end Narrative

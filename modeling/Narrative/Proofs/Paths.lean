import Mathlib.Data.List.Chain
import Narrative.Proofs.Discovery
import Narrative.Proofs.Parents

/-!
# `Proofs.Paths` — the paths of a plot, each of them once and in order

A path leads from a first action along links to an action without children. Actions may have several
parents, and a first action may be the child of another, so one action is on many paths; still no
path is listed twice, for two paths part where one goes on with another uid of the same list, and no
list has a uid twice.

Which paths are listed and in which order is said without the recursion that lists them. The order
is the one in which a reader meets them who always takes the first way that is left: of two paths,
that one comes **before** the other which goes on with the earlier uid where they part.

## Contents
- **Ways down.** `LeadsDown`, and `mem_pathsFrom`: what is listed below a uid.
- **Order.** `Before`, and `pairwise_pathsFrom`.
- **The main result** is `paths?_enumerates`.
-/

namespace Narrative.Plot
open Outcome Relation

variable {p : Plot} {uid : Uid} {path : List Uid}

/-! ## Ways down -/

/-- A path **leads down** from a uid if it starts there, follows links and ends at an action without
children. -/
structure LeadsDown (p : Plot) (uid : Uid) (path : List Uid) : Prop where
  start : path.head? = some uid
  links : path.IsChain p.Leads
  ends : ∃ last a, path.getLast? = some last ∧ p.action? last = some a ∧ a.children = []

/-- A path leads down if it ends at once, or goes on with a child from which the rest leads down. -/
theorem leadsDown_cons {first : Uid} {rest : List Uid} : p.LeadsDown uid (first :: rest) ↔
    first = uid ∧ ((rest = [] ∧ ∃ a, p.action? uid = some a ∧ a.children = []) ∨
      ∃ child, p.Leads uid child ∧ p.LeadsDown child rest) := by
  constructor
  · rintro ⟨hstart, hlinks, last, a, hlast, ha, hleaf⟩
    obtain rfl : first = uid := Option.some.inj hstart
    refine ⟨rfl, ?_⟩
    cases rest with
    | nil =>
      obtain rfl : first = last := Option.some.inj hlast
      exact .inl ⟨rfl, a, ha, hleaf⟩
    | cons child rest =>
      obtain ⟨hlink, hlinks⟩ := List.isChain_cons_cons.mp hlinks
      rw [List.getLast?_cons_cons] at hlast
      exact .inr ⟨child, hlink, rfl, hlinks, last, a, hlast, ha, hleaf⟩
  · rintro ⟨rfl, ⟨rfl, a, ha, hleaf⟩ | ⟨child, hlink, hstart, hlinks, last, a, hlast, ha, hleaf⟩⟩
    · exact ⟨rfl, List.isChain_singleton _, first, a, rfl, ha, hleaf⟩
    · cases rest with
      | nil => cases hstart
      | cons child' rest =>
        obtain rfl : child' = child := Option.some.inj hstart
        refine ⟨rfl, List.isChain_cons_cons.mpr ⟨hlink, hlinks⟩, last, a, ?_, ha, hleaf⟩
        rw [List.getLast?_cons_cons]
        exact hlast

theorem mem_pathsRound {below : Uid → List (List Uid)} : path ∈ p.pathsRound below uid ↔
    ∃ a, p.action? uid = some a ∧
      ((a.children = [] ∧ path = [uid]) ∨
        ∃ child ∈ a.children, ∃ rest ∈ below child, path = uid :: rest) := by
  unfold pathsRound
  cases ha : p.action? uid with
  | none => exact ⟨fun h => absurd h List.not_mem_nil, fun ⟨_, h, _⟩ => (nomatch h)⟩
  | some a =>
    simp only [Option.some.injEq, exists_eq_left']
    cases hchildren : a.children with
    | nil =>
      have hleaf : a.isLeaf = true := List.isEmpty_iff.mpr hchildren
      simp [hleaf]
    | cons child children =>
      have hleaf : ¬a.isLeaf = true := fun h => by
        rw [Action.isLeaf, hchildren] at h
        cases h
      rw [if_neg hleaf, List.mem_map]
      simp only [List.mem_flatMap, reduceCtorEq, false_and, false_or]
      constructor
      · rintro ⟨rest, ⟨child', hchild', hrest⟩, rfl⟩
        exact ⟨child', hchild', rest, hrest, rfl⟩
      · rintro ⟨child', hchild', rest, hrest, rfl⟩
        exact ⟨rest, ⟨child', hchild', hrest⟩, rfl⟩

/-- **Below a uid the paths are listed that lead down from it**, all of them and no others. -/
theorem mem_pathsFrom (hp : p.Acyclic) : path ∈ p.pathsFrom p.size uid ↔ p.LeadsDown uid path := by
  induction path generalizing uid with
  | nil =>
    rw [pathsFrom_size hp, mem_pathsRound]
    constructor
    · rintro ⟨_, _, ⟨_, h⟩ | ⟨_, _, _, _, h⟩⟩
      · cases h
      · cases h
    · rintro ⟨h, _⟩
      cases h
  | cons first rest ih =>
    rw [pathsFrom_size hp, mem_pathsRound, leadsDown_cons]
    constructor
    · rintro ⟨a, ha, ⟨hleaf, h⟩ | ⟨child, hchild, _, hrest, h⟩⟩
      · cases h
        exact ⟨rfl, .inl ⟨rfl, a, ha, hleaf⟩⟩
      · cases h
        exact ⟨rfl, .inr ⟨child, leads_of_mem ha hchild, ih.mp hrest⟩⟩
    · rintro ⟨rfl, ⟨rfl, a, ha, hleaf⟩ | ⟨child, hlink, hrest⟩⟩
      · exact ⟨a, ha, .inl ⟨hleaf, rfl⟩⟩
      · obtain ⟨a, ha⟩ := mapped_iff.mp hlink.mapped
        exact ⟨a, ha, .inr ⟨child, childrenOf_of_some ha ▸ hlink, rest, ih.mpr hrest, rfl⟩⟩

/-- Where nothing leads back to itself, a chain of links comes by no uid twice. -/
theorem nodup_of_isChain (hp : p.Acyclic) (h : path.IsChain p.Leads) : path.Nodup := by
  refine (pairwise_of_isChain h).imp fun {a b} hab heq => ?_
  subst heq
  exact hp a hab

/-! ## Order -/

/-- What a path may go on with: one that has not begun with the first actions, any other with the
children of its last uid. -/
def waysOn (p : Plot) (path : List Uid) : List Uid := path.getLast?.elim p.roots p.childrenOf

/-- One path comes **before** another if, where they part, it goes on with a uid that is listed
earlier. -/
def Before (p : Plot) (path path' : List Uid) : Prop :=
  ∃ common uid uid' rest rest', path = common ++ uid :: rest ∧ path' = common ++ uid' :: rest' ∧
    [uid, uid'].Sublist (p.waysOn common)

/-- Where no list has a uid twice, no path comes before itself. -/
theorem Before.ne {path' : List Uid} (h : p.Before path path') (hroots : p.roots.Nodup)
    (hchildren : ∀ uid, (p.childrenOf uid).Nodup) : path ≠ path' := by
  obtain ⟨common, uid, uid', rest, rest', rfl, rfl, hlisted⟩ := h
  intro heq
  obtain ⟨rfl, _⟩ := List.cons.inj (List.append_cancel_left heq)
  have hways : (p.waysOn common).Nodup := by
    unfold waysOn
    cases common.getLast? with
    | none => exact hroots
    | some last => exact hchildren last
  exact List.nodup_iff_sublist.mp hways uid hlisted

/-- Paths that go on with different uids after the same beginning come in the order of these uids. -/
theorem pairwise_waysOn (common : List Uid) {below : Uid → List (List Uid)} {ways : List Uid}
    (hways : ways = p.waysOn common)
    (hstart : ∀ uid, ∀ path ∈ below uid, ∃ rest, path = uid :: rest)
    (hbelow : ∀ uid,
      (below uid).Pairwise fun path path' => p.Before (common ++ path) (common ++ path')) :
    (ways.flatMap below).Pairwise fun path path' => p.Before (common ++ path) (common ++ path') := by
  refine List.pairwise_flatMap.mpr ⟨fun uid _ => hbelow uid, ?_⟩
  refine List.pairwise_iff_forall_sublist.mpr fun {uid uid'} hlisted path hpath path' hpath' => ?_
  obtain ⟨rest, rfl⟩ := hstart uid path hpath
  obtain ⟨rest', rfl⟩ := hstart uid' path' hpath'
  exact ⟨common, uid, uid', rest, rest', rfl, rfl, hways ▸ hlisted⟩

theorem start_of_mem_pathsFrom {depth : Nat} (h : path ∈ p.pathsFrom depth uid) :
    ∃ rest, path = uid :: rest := by
  cases depth with
  | zero => exact absurd h List.not_mem_nil
  | succ depth =>
    cases ha : p.action? uid with
    | none =>
      rw [pathsFrom, ha] at h
      exact absurd h List.not_mem_nil
    | some a =>
      rw [pathsFrom_of_some ha] at h
      obtain ⟨rest, _, rfl⟩ := List.mem_map.mp h
      exact ⟨rest, rfl⟩

/-- **Below a uid, paths are listed in order**, whatever they have in common above it. -/
theorem pairwise_pathsFrom (p : Plot) (depth : Nat) (common : List Uid) (uid : Uid) :
    (p.pathsFrom depth uid).Pairwise fun path path' => p.Before (common ++ path) (common ++ path') := by
  induction depth generalizing common uid with
  | zero => exact .nil
  | succ depth ih =>
    cases ha : p.action? uid with
    | none =>
      rw [pathsFrom, ha]
      exact .nil
    | some a =>
      rw [pathsFrom_of_some ha, List.pairwise_map]
      split
      · exact List.pairwise_singleton _ _
      · -- below, `uid` is one more that they have in common
        have hways : a.children = p.waysOn (common ++ [uid]) := by
          unfold waysOn
          rw [List.getLast?_concat]
          exact (childrenOf_of_some ha).symm
        have hchildren :=
          pairwise_waysOn (common ++ [uid]) hways (fun _ _ => start_of_mem_pathsFrom) fun child =>
            ih (common ++ [uid]) child
        refine hchildren.imp fun {path path'} h => ?_
        rw [List.append_assoc, List.append_assoc] at h
        exact h

/-! ## The main result -/

/-- **The paths of a plot are enumerated.** In a plot that was built from the empty one and may be
traversed, the paths are given without repetition. A list of uids is one of them exactly if it is
not empty, starts with a first action, follows links and ends at an action without children. No path
has a uid twice. They come in depth-first order: of two paths that one comes first which goes on,
where they part, with the uid that stands earlier among the first actions or among the children of
their last common uid. -/
theorem paths?_enumerates (h : p.Built) (hv : p.isValidated = true) :
    ∃ paths, p.paths? = .ok paths ∧ paths.Nodup ∧
      (∀ path, path ∈ paths ↔
        path ≠ [] ∧ (∃ root ∈ p.roots, path.head? = some root) ∧ path.IsChain p.Leads ∧
          ∃ last a, path.getLast? = some last ∧ p.action? last = some a ∧ a.children = []) ∧
      (∀ path ∈ paths, path.Nodup) ∧ paths.Pairwise p.Before := by
  have hlinked : p.Linked := h.linked
  have hacyclic : p.Acyclic := (h.edited.wellShaped hv).acyclic
  have hmem :
      ∀ path, path ∈ p.roots.flatMap (p.pathsFrom p.size) ↔ ∃ root ∈ p.roots, p.LeadsDown root path := by
    intro path
    rw [List.mem_flatMap]
    exact exists_congr fun root => and_congr_right fun _ => mem_pathsFrom hacyclic
  have hordered : (p.roots.flatMap (p.pathsFrom p.size)).Pairwise p.Before :=
    pairwise_waysOn [] rfl (fun _ _ => start_of_mem_pathsFrom) fun root =>
      pairwise_pathsFrom p p.size [] root
  refine ⟨p.roots.flatMap (p.pathsFrom p.size), ?_, ?_, ?_, ?_, hordered⟩
  · unfold paths? ensureValidated
    rw [if_pos hv]
    rfl
  · exact hordered.imp fun hbefore => hbefore.ne hlinked.roots hlinked.children
  · intro path
    rw [hmem]
    constructor
    · rintro ⟨root, hroot, hstart, hlinks, hends⟩
      refine ⟨?_, ⟨root, hroot, hstart⟩, hlinks, hends⟩
      rintro rfl
      cases hstart
    · rintro ⟨_, ⟨root, hroot, hstart⟩, hlinks, hends⟩
      exact ⟨root, hroot, hstart, hlinks, hends⟩
  · intro path hpath
    obtain ⟨root, _, hdown⟩ := (hmem path).mp hpath
    exact nodup_of_isChain hacyclic hdown.links

/-- Bob enters, bows or nods, and leaves; he may also nod without having entered. He might have
stumbled on the way out, but that has been taken out since the plot was validated. -/
def detours : Plot :=
  [Edit.addFirst 1, .addFirst 3, .mapAction "Enter" 1, .mapAction "Bow" 2, .mapAction "Nod" 3,
    .mapAction "Leave" 4, .mapAction "Stumble" 5, .addChild 1 3, .addChild 1 2, .addChild 2 4,
    .addChild 3 5, .addChild 3 4, .addChild 5 4, .validate, .spreadLabel 1 "polite",
    .removeAction 5].foldl (fun p e => e.after p) empty

/-- Nodding is linked before bowing, and comes first where he enters. -/
theorem paths?_enumerates_detours : detours.Built ∧ detours.isValidated = true ∧
    detours.paths? = .ok [[1, 3, 4], [1, 2, 4], [3, 4]] ∧
    [[1, 3, 4], [1, 2, 4], [3, 4]].Pairwise detours.Before ∧
      [1, 2, 4].IsChain detours.Leads ∧
      ∀ path ∈ ([[1, 3, 4], [1, 2, 4], [3, 4]] : List (List Uid)), path.Nodup := by
  have hbuilt : detours.Built := Built.empty.edits (by simp [Edit.Builds])
  have hv : detours.isValidated = true := by decide
  obtain ⟨paths, hpaths, _, hmem, hdistinct, hordered⟩ := paths?_enumerates hbuilt hv
  have hthree : detours.paths? = .ok [[1, 3, 4], [1, 2, 4], [3, 4]] := by decide
  obtain rfl : paths = [[1, 3, 4], [1, 2, 4], [3, 4]] := Except.ok.inj (hpaths.symm.trans hthree)
  exact ⟨hbuilt, hv, hthree, hordered, ((hmem [1, 2, 4]).mp (by decide)).2.2.1, hdistinct⟩

end Narrative.Plot

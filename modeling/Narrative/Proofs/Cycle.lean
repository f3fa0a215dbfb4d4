import Mathlib.Data.List.Chain
import Narrative.Proofs.Shape

/-!
# `Proofs.Cycle` — the search for cycles decides whether there are any

The search goes down every branch with a path of its own, while what it knows to be clean is shared
by all branches and all starts. Three things have to be shown of it, on plots of any shape:

* it comes to an end, also where the plot goes round in circles. A call is made only below a mapped
  uid that is not on the path yet, and there are fewer of those at each call;
* a path that it gives follows links and meets its last uid twice, so it shows a cycle, though maybe
  after a way that leads into it;
* where it gives none, it has settled every action, and what is settled leads nowhere back to
  itself. This half is `acyclic_of_findCycle?`.

## Contents
- **The calls.** `Calls`, `wellFounded_calls` and `walk_succ`: the depth in `walk` is never used up.
- **The path that is found.** `walk_error_keeps` and `findCycle?_eq_some`; `ClosesLoop`.
- **The decision.** The main result `findCycle?_decides`.
- **The way in.** `findCycle?_way_in`, and a path that is not closed: `reported_path_may_be_open`.
-/

namespace Narrative.Plot
open Outcome Relation

variable {p : Plot} {path clean found : List Uid} {uid : Uid}

/-! ## The calls -/

/-- The calls that the search makes at once: where a uid is not on its path yet, one for each child, with
the uid put on the path. -/
inductive Calls (p : Plot) : List Uid × Uid → List Uid × Uid → Prop where
  | below {path : List Uid} {uid child : Uid} (hnew : uid ∉ path) (hlink : p.Leads uid child) :
    Calls p (path ++ [uid], child) (path, uid)

/-- **No chain of calls goes on for ever**, whatever the shape of the plot. -/
theorem wellFounded_calls (p : Plot) : WellFounded p.Calls := by
  refine Subrelation.wf ?_ (measure fun call : List Uid × Uid => (p.OffPath call.1).card).wf
  rintro _ _ ⟨hnew, hlink⟩
  exact card_offPath_lt hnew hlink.mapped

/-- Where the depth exceeds the number of uids left to go through, one more changes nothing. -/
theorem walk_succ {depth : Nat} (hdepth : (p.OffPath path).card < depth) :
    p.walk (depth + 1) path clean uid = p.walk depth path clean uid := by
  induction depth generalizing path clean uid with
  | zero => exact absurd hdepth (Nat.not_lt_zero _)
  | succ depth ih =>
    rw [walk, walk]
    by_cases hon : path.contains uid = true
    · rw [if_pos hon, if_pos hon]
    · have hnew : uid ∉ path := fun hmem => hon (List.contains_iff_mem.mpr hmem)
      have hchildren : ∀ clean,
          (p.childrenOf uid).foldlM (fun c child => p.walk (depth + 1) (path ++ [uid]) c child) clean =
          (p.childrenOf uid).foldlM (fun c child => p.walk depth (path ++ [uid]) c child) clean := by
        refine foldlM_agree fun child hchild c => ih ?_
        have hless := card_offPath_lt hnew (Leads.mapped (show p.Leads uid child from hchild))
        omega
      simp only [hchildren]

/-- The search below a uid is the same at every depth above the number of actions. -/
theorem walk_unbounded (p : Plot) (path clean : List Uid) (uid : Uid) :
    p.walk (p.size + 1 + 1) path clean uid = p.walk (p.size + 1) path clean uid :=
  walk_succ (Nat.lt_succ_of_le (card_offPath_le p path))

/-! ## The path that is found -/

/-- A path **closes a loop** if it follows links and its last uid has been on it before. -/
structure ClosesLoop (p : Plot) (path : List Uid) : Prop where
  links : path.IsChain p.Leads
  again : ∃ front last, path = front ++ [last] ∧ last ∈ front

/-- Along a chain of links every uid leads to all later ones. -/
theorem pairwise_of_isChain (h : path.IsChain p.Leads) : path.Pairwise (TransGen p.Leads) :=
  List.isChain_iff_pairwise.mp (h.imp fun _ _ hab => .single hab)

/-- A uid on a loop leads back to itself. -/
theorem ClosesLoop.leads_back (h : p.ClosesLoop path) : ∃ uid, TransGen p.Leads uid uid := by
  obtain ⟨front, last, rfl, hlast⟩ := h.again
  have hpairs := List.pairwise_append.mp (pairwise_of_isChain h.links)
  exact ⟨last, hpairs.2.2 last hlast last (List.mem_singleton_self last)⟩

/-- **A search that fails has met a uid of its path again**, and whatever the calls hand on from the
start holds of the call in which that happens. -/
theorem walk_error_keeps {I : List Uid × Uid → Prop} {depth : Nat}
    (hcalls : ∀ call call', p.Calls call' call → I call → I call') (hstart : I (path, uid))
    (h : p.walk depth path clean uid = .error found) :
    ∃ front last, found = front ++ [last] ∧ last ∈ front ∧ I (front, last) := by
  induction depth generalizing path clean uid with
  | zero =>
    unfold walk at h
    split at h
    · next hon =>
      cases h
      exact ⟨path, uid, rfl, List.contains_iff_mem.mp hon, hstart⟩
    · split at h <;> cases h
  | succ depth ih =>
    unfold walk at h
    split at h
    · next hon =>
      cases h
      exact ⟨path, uid, rfl, List.contains_iff_mem.mp hon, hstart⟩
    · next hon =>
      have hnew : uid ∉ path := fun hmem => hon (List.contains_iff_mem.mpr hmem)
      split at h
      · cases h
      · rcases bind_eq_error.mp h with hbelow | ⟨_, _, h⟩
        · obtain ⟨child, hchild, c, hwalk⟩ := foldlM_error hbelow
          exact ih (hcalls _ _ (.below hnew hchild) hstart) hwalk
        · cases h

/-- Paths follow links: each call goes on from the last uid of its path to one that this leads to. -/
theorem Calls.isChain {call call' : List Uid × Uid} (h : p.Calls call' call)
    (hchain : (call.1 ++ [call.2]).IsChain p.Leads) :
    (call'.1 ++ [call'.2]).IsChain p.Leads := by
  obtain ⟨_, hlink⟩ := h
  refine List.isChain_append.mpr ⟨hchain, List.isChain_singleton _, ?_⟩
  intro a ha b hb
  rw [List.getLast?_concat, Option.mem_some_iff] at ha
  rw [List.head?_cons, Option.mem_some_iff] at hb
  subst ha hb
  exact hlink

/-- No uid comes onto a path twice. -/
theorem Calls.nodup {call call' : List Uid × Uid} (h : p.Calls call' call) (hnodup : call.1.Nodup) :
    call'.1.Nodup := by
  obtain ⟨hnew, _⟩ := h
  exact List.nodup_append.mpr ⟨hnodup, List.nodup_singleton _, fun a ha b hb heq =>
    hnew (List.mem_singleton.mp hb ▸ heq ▸ ha)⟩

/-- **A path that is found** follows links, and all its uids are different but for the last one,
which has been on it before. -/
theorem findCycle?_eq_some (h : p.findCycle? = some path) :
    path.IsChain p.Leads ∧ ∃ front last, path = front ++ [last] ∧ last ∈ front ∧ front.Nodup := by
  unfold findCycle? at h
  split at h
  · next hfold =>
    cases h
    obtain ⟨start, _, clean, hwalk⟩ := foldlM_error hfold
    obtain ⟨front, last, rfl, hlast, hchain, hnodup⟩ :=
      walk_error_keeps (I := fun call => (call.1 ++ [call.2]).IsChain p.Leads ∧ call.1.Nodup)
        (fun _ _ hcall hI => ⟨hcall.isChain hI.1, hcall.nodup hI.2⟩) ⟨List.isChain_singleton start,
          List.nodup_nil⟩ hwalk
    exact ⟨hchain, front, last, rfl, hlast, hnodup⟩
  · cases h

theorem closesLoop_of_findCycle? (h : p.findCycle? = some path) : p.ClosesLoop path := by
  obtain ⟨hchain, front, last, heq, hlast, _⟩ := findCycle?_eq_some h
  exact ⟨hchain, front, last, heq, hlast⟩

/-! ## The decision -/

/-- **The search for cycles is terminating, complete and sound**, on plots of any shape. Its calls
are well-founded, and `walk` at the depth that `findCycle?` takes is the search without a bound: it
satisfies the same equation at every path, with no depth counted down. It finds nothing exactly when
no mapped action leads back to itself. What it finds follows links, and ends with a uid that has
been on it before. -/
theorem findCycle?_decides (p : Plot) :
    WellFounded p.Calls ∧
    (∀ path clean uid, p.walk (p.size + 1) path clean uid =
      if path.contains uid then .error (path ++ [uid])
      else if clean.contains uid then .ok clean
      else do
        let clean ← (p.childrenOf uid).foldlM
          (fun clean child => p.walk (p.size + 1) (path ++ [uid]) clean child) clean
        return uid :: clean) ∧
    (p.findCycle? = none ↔ ∀ uid, p.mapped uid = true → ¬TransGen p.Leads uid uid) ∧
    ∀ path, p.findCycle? = some path →
      path.IsChain p.Leads ∧ ∃ front last, path = front ++ [last] ∧ last ∈ front := by
  refine ⟨wellFounded_calls p, ?_, ?_, ?_⟩
  · intro path clean uid
    rw [← walk_unbounded, walk]
  · constructor
    · intro h uid _
      exact acyclic_of_findCycle? h uid
    · intro h
      cases hfound : p.findCycle? with
      | none => rfl
      | some path =>
        obtain ⟨uid, hloop⟩ := (closesLoop_of_findCycle? hfound).leads_back
        obtain ⟨_, hlink, _⟩ := TransGen.head'_iff.mp hloop
        exact absurd hloop (h uid hlink.mapped)
  · intro path h
    have hloop := closesLoop_of_findCycle? h
    exact ⟨hloop.links, hloop.again⟩

/-- Bob enters, asks and waits, and from waiting he comes back to asking; or else he leaves. -/
def waiting : Plot where
  roots := [1]
  actions := .ofList [
    (1, { Action.new 1 "Enter" with children := [2] }),
      (2, { Action.new 2 "Ask" with children := [3, 4] }),
    (3, { Action.new 3 "Wait" with children := [2] }), (4, .new 4 "Leave")]
  validated := false

/-- Where the loop does not go through the start, the way into it comes first. -/
example : waiting.findCycle? = some [1, 2, 3, 2] := by decide

/-! ## The way in -/

/-- **A reported path is a way in and then a cycle.** It follows links and has two uids at least.
From some uid on it is closed: it goes round and comes back to that uid, and no other uid is on it
twice, neither on the cycle nor on the way in. The path as a whole begins where it ends exactly if
there is no way in. -/
theorem findCycle?_way_in (h : p.findCycle? = some path) :
    2 ≤ path.length ∧ path.IsChain p.Leads ∧ ∃ lead uid loop, path = lead ++ (uid :: loop ++ [uid]) ∧
      (uid :: loop ++ [uid]).IsChain p.Leads ∧ (lead ++ uid :: loop).Nodup ∧
      (path.head? = path.getLast? ↔ lead = []) := by
  obtain ⟨hchain, front, uid, rfl, huid, hnodup⟩ := findCycle?_eq_some h
  -- the path is cut where it comes by its last uid for the first time
  obtain ⟨lead, loop, rfl⟩ := List.append_of_mem huid
  rw [List.append_assoc] at hchain ⊢
  refine ⟨?_, hchain, lead, uid, loop, rfl, (List.isChain_append.mp hchain).2.1, hnodup, ?_⟩
  · rw [List.length_append, List.length_append, List.length_cons, List.length_singleton]
    omega
  · have hlast : (lead ++ (uid :: loop ++ [uid])).getLast? = some uid := by
      rw [← List.append_assoc]
      exact List.getLast?_concat
    rw [hlast]
    cases lead with
    | nil => exact ⟨fun _ => rfl, fun _ => rfl⟩
    | cons first lead =>
      have hne : first ≠ uid := by
        rintro rfl
        exact (List.nodup_cons.mp hnodup).1 (List.mem_append_right _ List.mem_cons_self)
      exact ⟨fun heq => absurd (Option.some.inj heq) hne, fun hnil => (nomatch hnil)⟩

/-- Bob's entrance is the way in to his asking and waiting. -/
theorem findCycle?_way_in_waiting :
    waiting.findCycle? = some [1, 2, 3, 2] ∧ [1, 2, 3, 2].IsChain waiting.Leads ∧
      ∃ lead uid loop, ([1, 2, 3, 2] : List Uid) = lead ++ (uid :: loop ++ [uid]) ∧ lead ≠ [] := by
  have hfound : waiting.findCycle? = some [1, 2, 3, 2] := by decide
  obtain ⟨_, hchain, lead, uid, loop, heq, _, _, hlead⟩ := findCycle?_way_in hfound
  exact ⟨hfound, hchain, lead, uid, loop, heq, fun hnil => absurd (hlead.mpr hnil) (by decide)⟩

/-- Bob enters, and then asks again and again. -/
def pestering : Plot where
  roots := [1]
  actions :=
    .ofList [(1, { Action.new 1 "Enter" with children := [2] }),
      (2, { Action.new 2 "Ask" with children := [2] })]
  validated := false

/-- **A reported path need not be closed**: it begins with the action that is left for good, and
ends with the one that leads back to itself. -/
theorem reported_path_may_be_open : ¬∀ (p : Plot) (path : List Uid), p.findCycle? = some path →
    2 ≤ path.length ∧ path.IsChain p.Leads ∧ path.head? = path.getLast? := by
  intro hclosed
  have hfound : pestering.findCycle? = some [1, 2, 2] := by decide
  obtain ⟨_, _, hends⟩ := hclosed pestering [1, 2, 2] hfound
  exact absurd hends (by decide)

end Narrative.Plot

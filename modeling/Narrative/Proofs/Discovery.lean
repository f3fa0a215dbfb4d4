import Narrative.Proofs.Exploring

/-!
# `Proofs.Discovery` — which paths are discovered, and when discovery fails

Discovery walks a plot and turns back wherever a precondition does not hold, so most paths are never
looked at to their end. What it finds is nevertheless what one would get by listing all paths and keeping
those on which every precondition holds of the world itself; whatever the effects on the way do to the
scratch layer plays no part.

A walk may also fail, and then all of discovery does. Where it fails can be said without walking: at
an action that is **reached** from a first one through actions whose preconditions hold, either a
precondition cannot be decided, or an effect cannot be carried out on the layer that the effects
before it have left.

## Contents
- **Open paths.** `OpenPath`, `Plot.firstLabel` and `explore_ok`.
- **Failures.** `Fails` as a walk meets them, `Reached` and `FailsAfter` without it; `fails_of_explore`,
  `explore_of_fails` and `fails_iff_reached`.
- **Candidates.** The main result `candidates_exact`.
-/

namespace Narrative
open Outcome

variable {ω : Type} [World ω] {r : Registry} {w : ω}

namespace Discovery
open Registry

variable {p : Plot} {uid : Uid}

/-! ## Open paths -/

/-- A path is **open** if every precondition of every action on it holds of the world. -/
def OpenPath (r : Registry) (w : ω) (p : Plot) (path : List Uid) : Prop :=
  ∀ uid ∈ path, ∀ a ∈ p.action? uid, ∀ c ∈ a.preconditions, r.evaluate w c = .ok true

-- named, for uids are finitely many and the search for an instance would go through all of them
instance (r : Registry) (w : ω) (p : Plot) (path : List Uid) : Decidable (OpenPath r w p path) :=
  List.decidableBAll
    (fun uid => ∀ a ∈ p.action? uid, ∀ c ∈ a.preconditions, r.evaluate w c = .ok true) path

theorem openPath_nil : OpenPath r w p [] := fun _ h => absurd h List.not_mem_nil

theorem openPath_cons {a : Action} (ha : p.action? uid = some a) (path : List Uid) :
    OpenPath r w p (uid :: path) ↔
      (∀ c ∈ a.preconditions, r.evaluate w c = .ok true) ∧ OpenPath r w p path := by
  unfold OpenPath
  rw [List.forall_mem_cons, ha]
  exact and_congr_left fun _ => ⟨fun h => h a rfl, fun h _ ha' => by cases ha'; exact h⟩

/-- A closed action closes every path through it. -/
theorem filter_openPath_closed {a : Action} (ha : p.action? uid = some a)
    (hgate : r.evaluateAll w a.preconditions = .ok false) (paths : List (List Uid)) :
    (paths.map (uid :: ·)).filter (OpenPath r w p) = [] := by
  obtain ⟨c, hc, hfalse⟩ := false_of_evaluateAll hgate
  refine List.filter_eq_nil_iff.mpr fun path hpath => ?_
  obtain ⟨rest, _, rfl⟩ := List.mem_map.mp hpath
  rw [decide_eq_true_eq, openPath_cons ha]
  intro hopen
  have htrue := hopen.1 c hc
  rw [hfalse] at htrue
  cases htrue

/-- An open action leaves the rest of a path to decide. -/
theorem filter_openPath_open {a : Action} (ha : p.action? uid = some a)
    (hgate : r.evaluateAll w a.preconditions = .ok true) (paths : List (List Uid)) :
    (paths.map (uid :: ·)).filter (OpenPath r w p) = (paths.filter (OpenPath r w p)).map (uid :: ·) := by
  rw [List.filter_map]
  refine congrArg _ (List.filter_congr fun path _ => ?_)
  rw [Function.comp_apply, decide_eq_decide, openPath_cons ha]
  exact and_iff_right (evaluateAll_eq_true.mp hgate)

end Discovery

/-- The first label carried by an action on a path. -/
def Plot.firstLabel (p : Plot) (path : List Uid) : Option String :=
  path.findSome? fun uid => (p.action? uid).bind (·.label)

namespace Plot

variable {p : Plot} {uid : Uid}

theorem firstLabel_cons {a : Action} (ha : p.action? uid = some a) (path : List Uid) :
    p.firstLabel (uid :: path) = a.label.or (p.firstLabel path) := by
  unfold firstLabel
  rw [List.findSome?_cons, ha, Option.bind_some]
  cases a.label <;> rfl

/-- The ways on from an action, down to a leaf. -/
theorem pathsFrom_of_some {a : Action} (ha : p.action? uid = some a) (depth : Nat) :
    p.pathsFrom (depth + 1) uid =
    (if a.isLeaf then [[]] else a.children.flatMap (p.pathsFrom depth)).map (uid :: ·) := by
  rw [pathsFrom, ha]
  show (if a.isLeaf = true then _ else _) = _
  split <;> rfl

end Plot

namespace Discovery
open Registry

variable {p : Plot} {uid : Uid} {walk entered : Walk ω} {found : List (Walk ω)}

/-- What can be told of a path by listing it: its uids after those of a walk, and the first label on
both. -/
def continued (p : Plot) (walk : Walk ω) (path : List Uid) : List Uid × Option String :=
  (walk.memory.path ++ path, walk.label.or (p.firstLabel path))

/-- To go on along a path is to enter its first action and go on from there. -/
theorem continued_cons {a : Action} (ha : p.action? uid = some a)
    (hentered : walk.enter r uid a = .ok entered) (path : List Uid) :
    continued p walk (uid :: path) = continued p entered path := by
  obtain ⟨hpath, hlabel, _⟩ := enter_ok hentered
  unfold continued
  rw [hpath, hlabel, List.append_assoc, Plot.firstLabel_cons ha, Option.or_assoc]
  rfl

/-- **A search that succeeds finds the open ones of all paths**, in their order, each with the first
label on it. -/
theorem explore_ok {depth : Nat} (h : explore r w p depth uid walk = .ok found) :
    found.map (fun f => (f.memory.path, f.label)) =
      ((p.pathsFrom depth uid).filter (OpenPath r w p)).map (continued p walk) := by
  induction depth generalizing uid walk found with
  | zero => cases h; rfl
  | succ depth ih =>
    rcases exploreRound_eq_ok h with ⟨ha, rfl⟩ | ⟨a, ha, hround⟩
    · rw [Plot.pathsFrom, ha]
      rfl
    · rw [Plot.pathsFrom_of_some ha]
      rcases hround with ⟨hgate, rfl⟩ | ⟨hgate, entered, hentered, hround⟩
      · rw [filter_openPath_closed ha hgate]
        rfl
      · rw [filter_openPath_open ha hgate, List.map_map,
          show continued p walk ∘ (uid :: ·) = continued p entered from funext
            (continued_cons ha hentered)]
        rcases hround with ⟨hleaf, rfl⟩ | ⟨hleaf, branches, hbranches, rfl⟩
        · have hend : ([[]] : List (List Uid)).filter (OpenPath r w p) = [[]] := by simp [openPath_nil]
          rw [if_pos hleaf, hend]
          show [(entered.memory.path, entered.label)] =
            [(entered.memory.path ++ [], entered.label.or none)]
          rw [List.append_nil, Option.or_none]
        · rw [if_neg (Bool.eq_false_iff.mp hleaf), List.filter_flatMap, List.map_flatMap]
          exact mapM_flatten hbranches fun child _ branch hbranch => ih hbranch

/-! ## Failures -/

/-- A walk that goes on with a uid, with this layer, meets a failure: there, or further down. -/
inductive Fails (r : Registry) (w : ω) (p : Plot) : Uid → Scratch ω → Prop where
  | gate {uid : Uid} {layer : Scratch ω} {a : Action} (ha : p.action? uid = some a)
    (h : r.Undecided w a.preconditions) : Fails r w p uid layer
  | effect {uid : Uid} {layer : Scratch ω} {a : Action} (ha : p.action? uid = some a)
    (hopen : ∀ c ∈ a.preconditions, r.evaluate w c = .ok true) (h : r.Blocked layer a.effects) :
      Fails r w p uid layer
  | further {uid child : Uid} {layer : Scratch ω} {a : Action} (ha : p.action? uid = some a)
    (hopen : ∀ c ∈ a.preconditions, r.evaluate w c = .ok true) (hchild : child ∈ a.children)
    (h : Fails r w p child (r.enactAll layer a.effects)) : Fails r w p uid layer

/-- A search that fails has met a failure. -/
theorem fails_of_explore {depth : Nat} {e : EvaluationError}
    (h : explore r w p depth uid walk = .error e) :
    Fails r w p uid walk.scratch := by
  induction depth generalizing uid walk e with
  | zero => cases h
  | succ depth ih =>
    obtain ⟨a, ha, hgate | ⟨hopen, hblocked | ⟨entered, hentered, child, hchild, e', hbelow⟩⟩⟩ :=
      exploreRound_error_iff.mp ⟨e, h⟩
    · exact .gate ha hgate
    · exact .effect ha hopen hblocked
    · have hfails := ih hbelow
      rw [(enter_ok hentered).2.2] at hfails
      exact .further ha hopen hchild hfails

/-- A failure fails the search. That it lies within the bound of the search is where the shape of
the plot comes in. -/
theorem explore_of_fails (hp : p.Acyclic) {layer : Scratch ω} (h : Fails r w p uid layer) {walk : Walk ω}
    (hlayer : walk.scratch = layer) : ∃ e, explore r w p p.size uid walk = .error e := by
  rw [explore_size r w hp]
  induction h generalizing walk with
  | gate ha h => exact exploreRound_error_iff.mpr ⟨_, ha, .inl h⟩
  | effect ha hopen h => exact exploreRound_error_iff.mpr ⟨_, ha, .inr ⟨hopen, .inl (hlayer ▸ h)⟩⟩
  | @further uid child layer a ha hopen hchild _ ih =>
    refine exploreRound_error_iff.mpr ⟨a, ha, .inr ⟨hopen, ?_⟩⟩
    -- the failure further down is met unless the effects on the way there already fail
    cases hentered : walk.enter r uid a with
    | error e => exact .inl (enter_error_iff.mp ⟨e, hentered⟩)
    | ok entered =>
      have hentry : entered.scratch = r.enactAll layer a.effects := by
        rw [(enter_ok hentered).2.2, hlayer]
      obtain ⟨e, he⟩ := ih hentry
      rw [← explore_size r w hp] at he
      exact .inr ⟨entered, rfl, child, hchild, e, he⟩

/-- A uid is **reached** after a list of actions if these lead to it from a first action, and all their
preconditions hold. -/
inductive Reached (r : Registry) (w : ω) (p : Plot) : List Uid → Uid → Prop where
  | root {uid : Uid} (h : uid ∈ p.roots) : Reached r w p [] uid
  | child {above : List Uid} {uid child : Uid} {a : Action} (h : Reached r w p above uid)
    (ha : p.action? uid = some a) (hopen : ∀ c ∈ a.preconditions, r.evaluate w c = .ok true)
    (hchild : child ∈ a.children) :
    Reached r w p (above ++ [uid]) child

/-- The scratch layer that the effects of a list of actions leave. -/
def layerAfter (r : Registry) (w : ω) (p : Plot) (path : List Uid) : Scratch ω :=
  path.foldl (fun layer uid => r.enactAll layer (((p.action? uid).map (·.effects)).getD [])) (.fresh w)

theorem layerAfter_concat {a : Action} (ha : p.action? uid = some a) (path : List Uid) :
    layerAfter r w p (path ++ [uid]) = r.enactAll (layerAfter r w p path) a.effects := by
  unfold layerAfter
  rw [List.foldl_append, List.foldl_cons, List.foldl_nil, ha]
  rfl

/-- An action fails after a list of actions if its preconditions cannot be decided, or hold but an
effect of its own cannot be carried out. -/
def FailsAfter (r : Registry) (w : ω) (p : Plot) (above : List Uid) (a : Action) : Prop :=
  r.Undecided w a.preconditions ∨
    ((∀ c ∈ a.preconditions, r.evaluate w c = .ok true) ∧ r.Blocked (layerAfter r w p above) a.effects)

/-- Below a reached uid, a failure shows at some reached action. -/
theorem Fails.reached {layer : Scratch ω} (h : Fails r w p uid layer) {above : List Uid}
    (hreached : Reached r w p above uid) (hlayer : layerAfter r w p above = layer) :
    ∃ above uid a, Reached r w p above uid ∧ p.action? uid = some a ∧ FailsAfter r w p above a := by
  induction h generalizing above with
  | gate ha h => exact ⟨above, _, _, hreached, ha, .inl h⟩
  | effect ha hopen h => exact ⟨above, _, _, hreached, ha, .inr ⟨hopen, hlayer ▸ h⟩⟩
  | further ha hopen hchild _ ih =>
    exact ih (hreached.child ha hopen hchild) (by rw [layerAfter_concat ha, hlayer])

/-- A failure below a reached uid is one below a first action. -/
theorem Reached.fails {above : List Uid} (hreached : Reached r w p above uid)
    (h : Fails r w p uid (layerAfter r w p above)) : ∃ root ∈ p.roots, Fails r w p root (.fresh w) := by
  induction hreached with
  | root hroot => exact ⟨_, hroot, h⟩
  | child _ ha hopen hchild ih =>
    rw [layerAfter_concat ha] at h
    exact ih (.further ha hopen hchild h)

/-- **Failures can be told without walking.** -/
theorem fails_iff_reached : (∃ root ∈ p.roots, Fails r w p root (.fresh w)) ↔
    ∃ above uid a, Reached r w p above uid ∧ p.action? uid = some a ∧ FailsAfter r w p above a := by
  constructor
  · rintro ⟨root, hroot, h⟩
    exact h.reached (.root hroot) rfl
  · rintro ⟨above, uid, a, hreached, ha, hgate | ⟨hopen, hblocked⟩⟩
    · exact hreached.fails (.gate ha hgate)
    · exact hreached.fails (.effect ha hopen hblocked)

/-! ## Candidates -/

variable {salience : Binary32} {c : Character}

theorem candidates_eq_ok {cs : List Candidate} (h : candidates r w salience c = .ok cs) :
    c.plot.paths? = .ok (c.plot.roots.flatMap (c.plot.pathsFrom c.plot.size)) ∧
      cs.map (fun candidate => (candidate.path, candidate.label)) =
        ((c.plot.roots.flatMap (c.plot.pathsFrom c.plot.size)).filter (OpenPath r w c.plot)).map
          fun path => (path, c.plot.firstLabel path) := by
  obtain ⟨_, hv, h⟩ := bind_eq_ok.mp h
  obtain ⟨found, hfound, h⟩ := bind_eq_ok.mp h
  cases h
  obtain ⟨branches, hbranches, h⟩ := bind_eq_ok.mp (mapError_eq_ok.mp hfound)
  cases h
  refine ⟨bind_eq_ok.mpr ⟨_, mapError_eq_ok.mp hv, rfl⟩, ?_⟩
  rw [List.map_map, List.filter_flatMap, List.map_flatMap]
  exact mapM_flatten hbranches fun root _ branch hbranch => explore_ok hbranch

/-- A plot that may be traversed fails in its walks only. -/
theorem candidates_error_iff (hv : c.plot.isValidated = true) {e : StoryError} :
    candidates r w salience c = .error e ↔ ∃ e', e = .evaluation e' ∧ walks r w c.plot = .error e' := by
  have hensure : c.plot.ensureValidated.mapError (StoryError.plot c.name) = .ok () := by
    unfold Plot.ensureValidated
    rw [if_pos hv]
    rfl
  unfold candidates
  rw [hensure]
  cases hwalks : walks r w c.plot with
  | ok found => exact ⟨fun h => (nomatch h), fun ⟨_, _, h⟩ => (nomatch h)⟩
  | error e' =>
    refine ⟨fun h => ⟨e', (Except.error.inj h).symm, rfl⟩, fun ⟨_, he, h⟩ => ?_⟩
    cases h
    rw [he]
    rfl

theorem walks_error_iff (hp : p.Acyclic) :
    (∃ e, walks r w p = .error e) ↔ ∃ root ∈ p.roots, Fails r w p root (.fresh w) := by
  constructor
  · rintro ⟨e, h⟩
    rcases bind_eq_error.mp h with hbranches | ⟨_, _, h⟩
    · obtain ⟨root, hroot, e', he'⟩ := mapM_error_iff.mp ⟨e, hbranches⟩
      exact ⟨root, hroot, fails_of_explore he'⟩
    · cases h
  · rintro ⟨root, hroot, h⟩
    obtain ⟨e, hbranches⟩ :=
      mapM_error_iff (f := fun root => explore r w p p.size root (Walk.start w)).mpr
      ⟨root, hroot, explore_of_fails hp h rfl⟩
    exact ⟨e, bind_eq_error.mpr (.inl hbranches)⟩

/-- **Discovery is exact.** Take any registry, any world and any character whose plot may be
traversed. If discovery succeeds, its paths are all paths of the plot, in order, less those on which
some precondition does not hold of the world, and each comes with the first label on it. It fails
exactly when some action is reached from a first one through actions whose preconditions hold, and
either has a precondition that fails to evaluate before any is false, or has preconditions that all
hold and an effect that cannot be carried out on the layer left by the effects before it on that
path. No other failure comes up. -/
theorem candidates_exact (hplot : c.plot.Edited) (hv : c.plot.isValidated = true) (r : Registry)
    (w : ω) (salience : Binary32) :
    (∀ cs, candidates r w salience c = .ok cs → ∃ paths, c.plot.paths? = .ok paths ∧
      cs.map (·.path) = paths.filter (OpenPath r w c.plot) ∧
      ∀ candidate ∈ cs, candidate.label = c.plot.firstLabel candidate.path) ∧
    ((∃ e, candidates r w salience c = .error (.evaluation e)) ↔
      ∃ above uid a, Reached r w c.plot above uid ∧ c.plot.action? uid = some a ∧
        FailsAfter r w c.plot above a) ∧
    ∀ e, candidates r w salience c = .error e → ∃ e', e = .evaluation e' := by
  have hshape : c.plot.WellShaped := hplot.wellShaped hv
  refine ⟨?_, ?_, ?_⟩
  · intro cs hcs
    obtain ⟨hpaths, hpairs⟩ := candidates_eq_ok hcs
    refine ⟨_, hpaths, ?_, ?_⟩
    · have hfst := congrArg (List.map Prod.fst) hpairs
      rw [List.map_map, List.map_map] at hfst
      exact hfst.trans (List.map_id _)
    · intro candidate hcandidate
      have hpair : (candidate.path, candidate.label) ∈
          cs.map fun candidate => (candidate.path, candidate.label) :=
        List.mem_map_of_mem hcandidate
      rw [hpairs] at hpair
      obtain ⟨path, _, heq⟩ := List.mem_map.mp hpair
      obtain ⟨rfl, hlabel⟩ := Prod.mk.inj heq
      exact hlabel.symm
  · calc (∃ e, candidates r w salience c = .error (.evaluation e))
        ↔ ∃ e, walks r w c.plot = .error e := by
          refine exists_congr fun e => (candidates_error_iff hv).trans ⟨?_, fun h => ⟨e, rfl, h⟩⟩
          rintro ⟨e', he, h⟩
          cases he
          exact h
      _ ↔ ∃ root ∈ c.plot.roots, Fails r w c.plot root (.fresh w) := walks_error_iff hshape.acyclic
      _ ↔ _ := fails_iff_reached
  · intro e he
    obtain ⟨e', rfl, _⟩ := (candidates_error_iff hv).mp he
    exact ⟨e', rfl⟩

/-- Whether one has met somebody is known or not. -/
def manners : Registry :=
  (Registry.empty.addCategory (.boolean "Known" ["met"] false)).toOption.getD .empty

/-- Bob may greet Ann, after which she knows him, and then embrace her if she knows him, or bow to
her. -/
def visitor : Character :=
  { Character.new "Bob" MemoryBank.defaultRecencyWeight with
    plot := [Plot.Edit.addFirst 1,
      .insert { Action.new 1 "Greet" with
        effects := [⟨⟨"Ann", "Known", "met"⟩, .assign, .bool true⟩] },
      .insert { Action.new 2 "Embrace" with
        preconditions := [⟨⟨"Ann", "Known", "met"⟩, .equal, .bool true⟩] },
      .insert { Action.new 3 "Bow" with label := some "polite" },
      .addChild 1 2, .addChild 1 3, .validate].foldl (fun p e => e.after p) .empty }

/-- Where Ann does not know him yet, only bowing is open: the greeting has been imagined, not made.
Where there is no Ann, the greeting itself fails. -/
theorem candidates_exact_visitor :
    visitor.plot.Edited ∧ visitor.plot.isValidated = true ∧
      (∃ cs, candidates manners (SortedMap.ofList [("Ann", Sheet.empty)]) .one visitor = .ok cs ∧
        cs.map (·.path) = [[1, 3]] ∧ ∀ candidate ∈ cs, candidate.label = some "polite") ∧
      ∃ e, candidates manners (.empty : SortedMap String Sheet) .one visitor =
        .error (.evaluation e) := by
  have hedited : visitor.plot.Edited := Plot.Edited.edits (.unmarked rfl) _
  have hv : visitor.plot.isValidated = true := by decide
  refine ⟨hedited, hv, ?_, ?_⟩
  · obtain ⟨hfound, _, _⟩ :=
      candidates_exact hedited hv manners (SortedMap.ofList [("Ann", Sheet.empty)]) .one
    have hsucceeds : (candidates manners (SortedMap.ofList [("Ann", Sheet.empty)]) .one
        visitor).toOption.isSome = true := by
      decide
    have hopen : visitor.plot.paths?.toOption.map
        (·.filter (OpenPath manners (SortedMap.ofList [("Ann", Sheet.empty)]) visitor.plot)) =
          some [[1, 3]] := by
      decide
    cases hcs : candidates manners (SortedMap.ofList [("Ann", Sheet.empty)]) .one visitor with
    | error e => rw [hcs] at hsucceeds; cases hsucceeds
    | ok cs =>
      obtain ⟨paths, hpaths, heq, hlabels⟩ := hfound cs hcs
      rw [hpaths] at hopen
      have hone : cs.map (·.path) = [[1, 3]] := heq.trans (Option.some.inj hopen)
      refine ⟨cs, rfl, hone, fun candidate hcandidate => ?_⟩
      have hpath : candidate.path ∈ cs.map (·.path) := List.mem_map_of_mem hcandidate
      rw [hone, List.mem_singleton] at hpath
      rw [hlabels candidate hcandidate, hpath]
      decide
  · obtain ⟨_, hfails, _⟩ := candidates_exact hedited hv manners (.empty : SortedMap String Sheet) .one
    -- the greeting is a first action without preconditions, and its effect finds nobody
    refine hfails.mpr ⟨[], 1, _, .root (by decide), rfl, .inr ⟨?_, [], _, [], rfl, ?_⟩⟩
    · exact fun _ h => absurd h List.not_mem_nil
    · exact ⟨.unknownCharacter "Ann", rfl⟩

end Discovery
end Narrative

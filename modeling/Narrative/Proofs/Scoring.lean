import Narrative.Proofs.Execution
import Narrative.Proofs.Exploring
import Narrative.Proofs.Recording

/-!
# `Proofs.Scoring` — a score is what taking the path would do

A path is scored without being taken: a depth-first walk carries its effects out on a scratch layer
of its own, action by action, and hands memory and layer down each branch. Taking the path is other
code: it lists the effects of all actions first, checks them, and runs them on the cast in one go.

The invariant that the walk carries down is that it **replays**: its memory and its layer are what the
effects of its path give when they are run in one go on a fresh layer. A fresh layer looks like the cast,
so taking the path records the same memory, adds it by the same boost, and ends at the aggregate that the
score was computed from.

## Contents
- **Walks.** `Replays`, kept by `enter` and by `explore`; `walks_replay`.
- **Taking a walked path.** `checkedEffects?_of_replays`, `execute_of_replays`.
- **Scores.** The main result `score_simulates_execute`.
-/

namespace Narrative
open Outcome Story

namespace Discovery

variable {ω : Type} [World ω] {r : Registry} {w : ω} {c : Character} {name : String}

/-! ## Walks -/

/-- A walk **replays** if running the effects of its path in one go, on a fresh layer, gives its memory
and its layer. -/
def Replays (r : Registry) (w : ω) (c : Character) (name : String) (walk : Walk ω) : Prop :=
  ∃ es, effectsOf? c name walk.memory.path = .ok es ∧
    r.recordAll es (.new walk.memory.path) (Scratch.fresh w) = .ok walk.memory walk.scratch

theorem replays_start (r : Registry) (w : ω) (c : Character) (name : String) :
    Replays r w c name (Walk.start w) :=
  ⟨[], rfl, rfl⟩

/-- Going on to an action of the plot keeps a walk replaying. -/
theorem replays_enter {walk walk' : Walk ω} {uid : Uid} {a : Action} (hwalk : Replays r w c name walk)
    (ha : c.plot.action? uid = some a) (h : walk.enter r uid a = .ok walk') :
    Replays r w c name walk' ∧ walk'.memory.path = walk.memory.path ++ [uid] := by
  obtain ⟨es, hes, hrun⟩ := hwalk
  obtain ⟨m, hm, rfl⟩ := map_eq_ok.mp h
  have hpath : m.path = walk.memory.path ++ [uid] := Registry.path_of_recordAll hm
  refine ⟨⟨es ++ a.effects, ?_, ?_⟩, hpath⟩
  · show effectsOf? c name m.path = _
    rw [hpath]
    exact effectsOf?_append hes ha
  · show r.recordAll (es ++ a.effects) (.new m.path) _ = .ok m _
    -- the effects before the action run as they did, under the longer path
    have hbefore : r.recordAll es (.new m.path) (Scratch.fresh w) =
        .ok { walk.memory with path := m.path } walk.scratch := by
      have hpathless :=
        Registry.recordAll_path (r := r) es (.new walk.memory.path) m.path (Scratch.fresh w)
      rw [hrun] at hpathless
      exact hpathless
    rw [Registry.recordAll_append, hbefore, Attempt.andThen_ok, hpath]
    exact (Attempt.mk.injEq ..).mpr ⟨hm, rfl⟩

/-- What entering an action makes of a walk holds of every walk that is found: `I` is what is known of a
walk under way, `J` what is known of one that has just entered an action. -/
theorem explore_keeps {I J : Walk ω → Prop} {p : Plot} (hJI : ∀ walk, J walk → I walk)
    (henter : ∀ walk walk' uid a, I walk → p.action? uid = some a →
      walk.enter r uid a = .ok walk' → J walk') {depth : Nat} {uid : Uid} {walk : Walk ω}
    {found : List (Walk ω)} (h : explore r w p depth uid walk = .ok found) (hwalk : I walk) :
    ∀ walk' ∈ found, J walk' := by
  induction depth generalizing uid walk found with
  | zero =>
    cases h
    exact fun _ hmem => absurd hmem List.not_mem_nil
  | succ depth ih =>
    rcases exploreRound_eq_ok h with ⟨_, rfl⟩ | ⟨a, ha, ⟨_, rfl⟩ | ⟨_, entered, hentered, hround⟩⟩
    · exact fun _ hmem => absurd hmem List.not_mem_nil
    · exact fun _ hmem => absurd hmem List.not_mem_nil
    · -- the walk is either complete here or goes on from `entered` below each child
      have hJ := henter walk entered uid a hwalk ha hentered
      rcases hround with ⟨_, rfl⟩ | ⟨_, branches, hbranches, rfl⟩
      · intro walk' hmem
        rw [List.mem_singleton.mp hmem]
        exact hJ
      · intro walk' hmem
        obtain ⟨branch, hbranch, hmem⟩ := List.mem_flatten.mp hmem
        obtain ⟨child, _, hchild⟩ := mapM_mem hbranches hbranch
        exact ih hchild (hJI entered hJ) walk' hmem

/-- **Every walk that is found replays**, and has taken at least one action. -/
theorem walks_replay {found : List (Walk ω)} (h : walks r w c.plot = .ok found) (name : String) :
    ∀ walk ∈ found, Replays r w c name walk ∧ walk.memory.path ≠ [] := by
  obtain ⟨branches, hbranches, h⟩ := bind_eq_ok.mp h
  cases h
  intro walk hmem
  obtain ⟨branch, hbranch, hmem⟩ := List.mem_flatten.mp hmem
  obtain ⟨root, _, hroot⟩ := mapM_mem hbranches hbranch
  refine explore_keeps (I := Replays r w c name) (J := fun walk => Replays r w c name walk ∧
    walk.memory.path ≠ [])
    (fun _ h => h.1) (fun walk walk' uid a hwalk ha hentered => ?_) hroot
      (replays_start r w c name) walk hmem
  obtain ⟨hreplays, hpath⟩ := replays_enter hwalk ha hentered
  exact ⟨hreplays, by rw [hpath]; exact List.append_ne_nil_of_right_ne_nil _ (List.cons_ne_nil _ _)⟩

end Discovery

namespace Story

/-! ## Taking a walked path -/

variable {s : Story} {name : String} {c : Character} {walk : Discovery.Walk Cast}

/-- The path of a walk that replays passes the checks: what could be carried out on the layer is
registered and allowed. -/
theorem checkedEffects?_of_replays (hs : World.Fits s.registry s.cast)
    (hc : s.cast.get? name = some c) (hwalk : Discovery.Replays s.registry s.cast c name walk) :
    ∃ es, s.checkedEffects? name walk.memory.path = .ok es ∧
      s.registry.recordAll es (.new walk.memory.path) (Scratch.fresh s.cast) =
        .ok walk.memory walk.scratch := by
  obtain ⟨es, hes, hrun⟩ := hwalk
  refine ⟨es, checkedEffects?_eq_ok.mpr ⟨c, hc, hes, fun e he => ?_⟩, hrun⟩
  -- carried out on the layer, every effect has passed a check of its own
  have hfresh : World.Fits s.registry (Scratch.fresh s.cast) := fun name sheet h => hs name sheet h
  obtain ⟨hcheck, htarget⟩ := (Registry.recordAll_ok_iff hfresh).mp ⟨_, by rw [hrun]; rfl⟩ e he
  refine ⟨hcheck, ?_⟩
  rw [alike_fresh s.cast e.character, isSome_sheet?_cast] at htarget
  exact htarget

/-- Taking the path of a walk commits the memory of the walk. -/
theorem execute_of_replays (hs : World.Fits s.registry s.cast) (hc : s.cast.get? name = some c)
    (hwalk : Discovery.Replays s.registry s.cast c name walk) (hpath : walk.memory.path ≠ []) :
    ∃ s' c', s.execute name walk.memory.path = .ok () s' ∧ s'.cast.get? name = some c' ∧
      c'.memory = c.memory.add walk.memory := by
  obtain ⟨es, hes, hrun⟩ := checkedEffects?_of_replays hs hc hwalk
  -- the layer looks like the cast, so the cast records the same memory
  obtain ⟨hresult, _⟩ :=
    Registry.recordAll_alike (r := s.registry) (alike_fresh s.cast) es (.new walk.memory.path)
  rw [hrun] at hresult
  have htaken : s.registry.recordAll es (.new walk.memory.path) s.cast =
      .ok walk.memory (s.registry.recordAll es (.new walk.memory.path) s.cast).state := by
    rw [Attempt.ok, show Except.ok walk.memory = _ from hresult]
  obtain ⟨sheet, hsheet⟩ := Registry.recordAll_cast (r := s.registry) es (.new walk.memory.path) hc
  refine ⟨_, { c with sheet := sheet, memory := c.memory.add walk.memory },
    execute_of_checked hes hpath htaken, ?_, rfl⟩
  show Cast.get? (Cast.update _ name _) name = _
  rw [Cast.get?_update, if_pos rfl, hsheet]
  rfl

/-! ## Scores -/

/-- **Scoring simulates taking the path.** In every reachable story, and for every character, the
candidates stand for the walks of the plot, one for one. Take the path of any of them next: it succeeds,
the bank gets one memory with the path and the vector that the walk built on its scratch layer, the
aggregate becomes the one that `preview` foresaw, and the score is the distance of the wanted salience
from the similarity of the aggregate after and before. Both sides of that equation are the same term once
the aggregates are, so no law of `Binary32` is used. -/
theorem score_simulates_execute (h : Reachable s) (hc : s.cast.get? name = some c) {cs : List Candidate}
    (hcs : Discovery.candidates s.registry s.cast s.settings.conversationType c = .ok cs) :
    ∃ found, Discovery.walks s.registry s.cast c.plot = .ok found ∧
      cs = found.map (Discovery.candidateOf s.settings.conversationType c.memory) ∧
      ∀ candidate ∈ cs, ∃ walk ∈ found, candidate.path = walk.memory.path ∧
        ∃ s' c', s.execute name candidate.path = .ok () s' ∧ s'.cast.get? name = some c' ∧
          c'.memory.memories = c.memory.memories ++ [⟨candidate.path, walk.memory.vector⟩] ∧
          c'.memory.aggregate = c.memory.preview walk.memory.vector ∧
          candidate.score = (s.settings.conversationType -
            c'.memory.aggregate.normalized.similarity c.memory.aggregate.normalized).abs := by
  obtain ⟨_, _, hcs⟩ := bind_eq_ok.mp hcs
  obtain ⟨found, hfound, hcs⟩ := bind_eq_ok.mp hcs
  rw [mapError_eq_ok] at hfound
  cases hcs
  refine ⟨found, hfound, rfl, ?_⟩
  intro candidate hcandidate
  obtain ⟨walk, hwalk, rfl⟩ := List.mem_map.mp hcandidate
  obtain ⟨hreplays, hpath⟩ := Discovery.walks_replay hfound name walk hwalk
  obtain ⟨s', c', hexecute, hc', hmemory⟩ := execute_of_replays h.sound.fits hc hreplays hpath
  refine ⟨walk, hwalk, rfl, s', c', hexecute, hc', ?_, ?_, ?_⟩
  · rw [hmemory]
    rfl
  · rw [hmemory, MemoryBank.aggregate_add]
  · rw [hmemory, MemoryBank.aggregate_add]
    rfl

/-- Bob has waved at Ann once, and may now wave and introduce himself, which changes something about
both of them. -/
def greeting : Story :=
  [Operation.loadCategories [.numeric "Mood" ["happy"] 0 10 5, .boolean "Known" ["met"] false],
    .loadCharacters ["Ann", "Bob"],
    .loadActions "Bob" [
      { ActionDecl.new 1 "Wave" with
        first := true
        effects := [⟨⟨"Ann", "Mood", "happy"⟩, .add, .int 2⟩]
        leadsTo := [2] },
      { ActionDecl.new 2 "Introduce" with
        effects :=
          [⟨⟨"Ann", "Mood", "happy"⟩, .add, .int 9⟩, ⟨⟨"Bob", "Known", "met"⟩, .assign, .bool true⟩] }],
    .execute "Bob" [1]].foldl (fun s op => op.after s) (start .default (.listed []))

/-- In that story the score of his one open path is what taking the path does to the aggregate. -/
theorem score_simulates_execute_greeting :
    Reachable greeting ∧ ∃ c cs,
      greeting.cast.get? "Bob" = some c ∧ greeting.candidates? "Bob" = .ok cs ∧
      ∃ candidate ∈ cs, candidate.path = [1, 2] ∧
        ∃ s' c', greeting.execute "Bob" [1, 2] = .ok () s' ∧ s'.cast.get? "Bob" = some c' ∧
          candidate.score = (greeting.settings.conversationType -
            c'.memory.aggregate.normalized.similarity c.memory.aggregate.normalized).abs := by
  have hreach : Reachable greeting := reachable_calls (reachable_start_default _) _
  have hpaths : (greeting.candidates? "Bob").toOption.map (·.map (·.path)) = some [[1, 2]] := by decide
  cases hcs : greeting.candidates? "Bob" with
  | error e => rw [hcs] at hpaths; cases hpaths
  | ok cs =>
    rw [hcs] at hpaths
    obtain ⟨c, hc, hfound⟩ := bind_eq_ok.mp hcs
    rw [character?_eq_ok] at hc
    obtain ⟨_, _, _, htaken⟩ := score_simulates_execute hreach hc hfound
    have hmem : [1, 2] ∈ cs.map (·.path) := by
      rw [show cs.map (·.path) = [[1, 2]] from Option.some.inj hpaths]
      exact List.mem_singleton_self _
    obtain ⟨candidate, hcandidate, hpath⟩ := List.mem_map.mp hmem
    obtain ⟨_, _, _, s', c', hexecute, hc', _, _, hscore⟩ := htaken candidate hcandidate
    rw [hpath] at hexecute
    exact ⟨hreach, c, cs, hc, rfl, candidate, hcandidate, hpath, s', c', hexecute, hc', hscore⟩

end Story
end Narrative

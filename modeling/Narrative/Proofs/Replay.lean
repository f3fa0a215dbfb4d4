import Narrative.Memory
import Mathlib.Algebra.Group.Nat.Defs
import Mathlib.Data.List.Induction

/-!
# `Proofs.Replay` — the aggregate is a replay of the memories

A bank keeps its aggregate up to date as memories come in, each raised by the step at which it came, and
filters it when keys are forgotten. It never looks back at the memories. Yet the aggregate is at any time
what a new bank would have if the memories, as they are by now, came in one after the other.

The reason is that forgetting goes past adding: to add a memory and then forget keys is to forget them
first and add what is left of the memory. A key that comes back after it was forgotten starts from zero
again, and the memories keep their places, so their steps raise them as before.

## Contents
- **Weights.** `get?_combine`; `retain_combine`: forgetting goes past a sum.
- **Banks.** `Memory.retain`, `retainKeys_add`, `replay` and `retainKeys_replay`;
  `contains_aggregate_replay`.
- **Single keys.** `additions`: what is added at a key, in order; `get?_aggregate_replay`.
- **Growth.** `Grown`: the banks that come about by adding and forgetting; `Grown.eq_replay`,
  `Grown.retells`.
-/

namespace Narrative

/-! ## Weights -/

namespace Weights

variable {v u : Weights} {key : String} {w boost : Binary32} {keep : String → Bool}

theorem retain_add_kept (hk : keep key = true) :
    (v.add key w).retain keep = (v.retain keep).add key w := by
  have hget : (v.retain keep).get key = v.get key := by
    unfold get
    rw [get?_retain, if_pos hk]
  refine ext fun key' => ?_
  rw [get?_retain, get?_add, get?_add, get?_retain, hget]
  by_cases heq : key' = key
  · rw [if_pos heq, if_pos heq, heq, if_pos hk]
  · rw [if_neg heq, if_neg heq]

theorem retain_add_lost (hk : ¬keep key = true) : (v.add key w).retain keep = v.retain keep := by
  refine ext fun key' => ?_
  rw [get?_retain, get?_retain, get?_add]
  by_cases heq : key' = key
  · rw [heq, if_neg hk, if_neg hk]
  · rw [if_neg heq]

/-- Forgetting goes past a sum: only the keys that are kept have to be added. -/
theorem retain_combine (v u : Weights) (boost : Binary32) (keep : String → Bool) :
    (v.combine u boost).retain keep = (v.retain keep).combine (u.retain keep) boost := by
  unfold combine
  rw [show (u.retain keep).toList = u.toList.filter fun e => keep e.1 from rfl]
  -- the keys are added one by one, so the induction is on their list, over any sum so far
  induction u.toList generalizing v with
  | nil => rfl
  | cons e l ih =>
    rw [List.filter_cons, List.foldl_cons, ih]
    by_cases hk : keep e.1 = true
    · rw [if_pos hk, List.foldl_cons, retain_add_kept hk]
    · rw [if_neg hk, retain_add_lost hk]

/-- A sum adds at each key of the second vector once. -/
theorem get?_combine (v u : Weights) (boost : Binary32) (key : String) :
    (v.combine u boost).weights.get? key =
      match u.weights.get? key with
      | none => v.weights.get? key
      | some w => some (v.get key + (w + boost)) := by
  obtain ⟨⟨entries, hascending⟩⟩ := u
  show (entries.foldl _ v).weights.get? key =
    match SortedMap.lookup key entries with
    | none => v.weights.get? key
    | some w => some (v.get key + (w + boost))
  induction entries generalizing v with
  | nil => rfl
  | cons e l ih =>
    obtain ⟨hbelow, hl⟩ := List.pairwise_cons.mp hascending
    rw [List.foldl_cons, ih _ hl]
    by_cases heq : key = e.1
    · -- the keys ascend, so this one is not added to again
      subst heq
      have hnone : SortedMap.lookup e.1 l = none := SortedMap.lookup_eq_none_of_below hbelow
      rw [hnone, SortedMap.lookup, if_pos Std.ReflCmp.compare_self]
      show (v.add e.1 (e.2 + boost)).weights.get? e.1 = _
      rw [get?_add, if_pos rfl]
    · have hother : (v.add e.1 (e.2 + boost)).weights.get? key = v.weights.get? key := by
        rw [get?_add, if_neg heq]
      have hget : (v.add e.1 (e.2 + boost)).get key = v.get key := by
        unfold get
        rw [hother]
      rw [SortedMap.lookup, if_neg fun h => heq (Std.LawfulEqCmp.compare_eq_iff_eq.mp h), hother, hget]

theorem contains_retain :
    (v.retain keep).weights.contains key = true ↔ keep key = true ∧ v.weights.contains key = true := by
  unfold SortedMap.contains
  rw [get?_retain]
  by_cases hk : keep key = true
  · rw [if_pos hk]
    exact (and_iff_right hk).symm
  · rw [if_neg hk]
    exact iff_of_false (fun h => nomatch h) fun h => hk h.1

theorem contains_combine : (v.combine u boost).weights.contains key = true ↔
    v.weights.contains key = true ∨ u.weights.contains key = true := by
  unfold SortedMap.contains
  rw [get?_combine]
  cases u.weights.get? key with
  | none => exact (or_iff_left fun h => nomatch h).symm
  | some w => exact iff_of_true rfl (.inr rfl)

end Weights

/-! ## Banks -/

/-- The memory with only the keys on which `keep` holds. -/
def Memory.retain (m : Memory) (keep : String → Bool) : Memory :=
  { m with vector := m.vector.retain keep }

namespace MemoryBank

variable {recencyWeight : Binary32} {b : MemoryBank} {ms : List Memory}

/-- **Forgetting goes past adding.** -/
theorem retainKeys_add (b : MemoryBank) (m : Memory) (keep : String → Bool) :
    (b.add m).retainKeys keep = (b.retainKeys keep).add (m.retain keep) := by
  unfold retainKeys
  rw [aggregate_add, memories_add, List.map_append, preview, Weights.retain_combine]
  rfl

/-- A new bank to which memories are added in order. -/
def replay (recencyWeight : Binary32) (ms : List Memory) : MemoryBank := ms.foldl add (new recencyWeight)

theorem replay_concat (recencyWeight : Binary32) (ms : List Memory) (m : Memory) :
    replay recencyWeight (ms ++ [m]) = (replay recencyWeight ms).add m := by
  unfold replay
  rw [List.foldl_append]
  rfl

theorem recencyWeight_replay (recencyWeight : Binary32) (ms : List Memory) :
    (replay recencyWeight ms).recencyWeight = recencyWeight := by
  induction ms using List.reverseRecOn with
  | nil => rfl
  | append_singleton ms m ih => rw [replay_concat, recencyWeight_add, ih]

theorem memories_replay (recencyWeight : Binary32) (ms : List Memory) :
    (replay recencyWeight ms).memories = ms := by
  induction ms using List.reverseRecOn with
  | nil => rfl
  | append_singleton ms m ih =>
    rw [replay_concat, memories_add, ih]

theorem steps_replay (recencyWeight : Binary32) (ms : List Memory) :
    (replay recencyWeight ms).steps = UInt32.ofNat ms.length := by
  induction ms using List.reverseRecOn with
  | nil => rfl
  | append_singleton ms m ih =>
    rw [replay_concat, steps_add, ih, List.length_append, List.length_singleton, UInt32.ofNat_add]
    rfl

/-- To forget keys of a replay is to replay memories that never had them. -/
theorem retainKeys_replay (recencyWeight : Binary32) (ms : List Memory) (keep : String → Bool) :
    (replay recencyWeight ms).retainKeys keep = replay recencyWeight (ms.map (·.retain keep)) := by
  induction ms using List.reverseRecOn with
  | nil => rfl
  | append_singleton ms m ih =>
    rw [replay_concat, retainKeys_add, ih, List.map_append, List.map_singleton, replay_concat]

/-- A key is in the aggregate if it is in one of the memories. -/
theorem contains_aggregate_replay {key : String} :
    (replay recencyWeight ms).aggregate.weights.contains key = true ↔
    ∃ m ∈ ms, m.vector.weights.contains key = true := by
  induction ms using List.reverseRecOn with
  | nil => exact iff_of_false (fun h => nomatch h) fun ⟨_, hm, _⟩ => absurd hm List.not_mem_nil
  | append_singleton ms m ih =>
    rw [replay_concat, aggregate_add, preview, Weights.contains_combine, ih]
    simp only [List.mem_append, List.mem_singleton, or_and_right, exists_or, exists_eq_left]

/-! ## Single keys -/

/-- What is added at a key when memories come in, in order: the weight in each memory that has the key,
raised by the number of memories before it. -/
def additions (recencyWeight : Binary32) (key : String) (ms : List Memory) : List Binary32 :=
  ms.zipIdx.filterMap fun (m, i) =>
    (m.vector.weights.get? key).map (· + recencyWeight * Binary32.ofInt i)

theorem additions_concat (recencyWeight : Binary32) (key : String) (ms : List Memory) (m : Memory) :
    additions recencyWeight key (ms ++ [m]) = additions recencyWeight key ms ++
      ((m.vector.weights.get? key).map (· + recencyWeight * Binary32.ofInt ms.length)).toList := by
  unfold additions
  rw [List.zipIdx_append, List.filterMap_append]
  cases hkey : m.vector.weights.get? key <;> simp [hkey]

/-- **The aggregate key by key**: at a key that some memory has stands the sum of the additions
there, taken in the order of the memories, and at no other key stands anything. -/
theorem get?_aggregate_replay (recencyWeight : Binary32) (key : String) (h : ms.length < 2 ^ 32) :
    (replay recencyWeight ms).aggregate.weights.get? key =
      if additions recencyWeight key ms = [] then none
        else some (.sumFrom .zero (additions recencyWeight key ms)) := by
  induction ms using List.reverseRecOn with
  | nil => rfl
  | append_singleton ms m ih =>
    rw [List.length_append, List.length_singleton] at h
    have hold := ih (by omega)
    -- the step counter has not run over, so it tells how many memories came before
    have hboost : (replay recencyWeight ms).boost ((replay recencyWeight ms).steps + 1) =
        recencyWeight * Binary32.ofInt ms.length := by
      have hsteps : (UInt32.ofNat ms.length + 1).toNat - 1 = ms.length := by
        rw [UInt32.toNat_add, UInt32.toNat_ofNat']
        have hone : (1 : UInt32).toNat = 1 := rfl
        omega
      unfold boost
      rw [recencyWeight_replay, steps_replay, hsteps]
    rw [replay_concat, additions_concat, aggregate_add, preview, Weights.get?_combine, hboost]
    cases hkey : m.vector.weights.get? key with
    | none => simpa [hkey] using hold
    | some w =>
      -- without additions so far the sum starts from zero
      have hget : (replay recencyWeight ms).aggregate.get key =
          .sumFrom .zero (additions recencyWeight key ms) := by
        unfold Weights.get
        rw [hold]
        split
        · next hnone => rw [hnone]; rfl
        · rfl
      simp [hget, Binary32.sumFrom]

/-! ## Growth -/

/-- The banks that come about from a new one by adding memories, `adds` of them, and by forgetting
keys in between. -/
inductive Grown (recencyWeight : Binary32) : (adds : Nat) → MemoryBank → Prop where
  | new : Grown recencyWeight 0 (new recencyWeight)
  | add {adds : Nat} {b : MemoryBank} (h : Grown recencyWeight adds b) (m : Memory) :
    Grown recencyWeight (adds + 1) (b.add m)
  | retainKeys {adds : Nat} {b : MemoryBank} (h : Grown recencyWeight adds b) (keep : String → Bool) :
    Grown recencyWeight adds (b.retainKeys keep)

/-- **A bank is the replay of its memories**, whatever it has forgotten on the way. -/
theorem Grown.eq_replay {adds : Nat} (h : Grown recencyWeight adds b) :
    b = replay recencyWeight b.memories ∧ b.memories.length = adds := by
  induction h with
  | new => exact ⟨rfl, rfl⟩
  | @add adds b _ m ih =>
    obtain ⟨heq, hlength⟩ := ih
    constructor
    · show b.add m = replay recencyWeight (b.memories ++ [m])
      rw [replay_concat, ← heq]
    · show (b.memories ++ [m]).length = adds + 1
      rw [List.length_append, hlength]
      rfl
  | @retainKeys adds b _ keep ih =>
    obtain ⟨heq, hlength⟩ := ih
    constructor
    · show b.retainKeys keep = replay recencyWeight (b.memories.map (·.retain keep))
      rw [← retainKeys_replay, ← heq]
    · show (b.memories.map _).length = adds
      rw [List.length_map, hlength]

/-- A bank **retells** its memories if nothing in it depends on what has been forgotten since they
came in. -/
structure Retells (recencyWeight : Binary32) (b : MemoryBank) : Prop where
  /-- The steps count the memories that are stored. -/
  steps : b.steps.toNat = b.memories.length
  /-- The aggregate is that of a new bank to which the stored memories are added in order. -/
  aggregate : b.aggregate = (replay recencyWeight b.memories).aggregate
  /-- At each key stands the sum of the additions there, in the order of the memories. -/
  keywise : ∀ key, b.aggregate.weights.get? key =
    if additions recencyWeight key b.memories = [] then none
    else some (.sumFrom .zero (additions recencyWeight key b.memories))
  /-- To forget keys now leaves the aggregate as if they had never been recorded. -/
  forgetting : ∀ keep, (b.retainKeys keep).aggregate =
    (replay recencyWeight (b.memories.map (·.retain keep))).aggregate

/-- As long as the step counter has not run over, a bank retells its memories. -/
theorem Grown.retells {adds : Nat} (h : Grown recencyWeight adds b) (hadds : adds < 2 ^ 32) :
    b.Retells recencyWeight := by
  obtain ⟨heq, hlength⟩ := h.eq_replay
  rw [← hlength] at hadds
  refine ⟨?_, ?_, ?_, ?_⟩
  · have hsteps : b.steps = UInt32.ofNat b.memories.length := by
      rw [heq, steps_replay, memories_replay]
    rw [hsteps, UInt32.toNat_ofNat']
    omega
  · rw [← heq]
  · intro key
    have haggregate : b.aggregate = (replay recencyWeight b.memories).aggregate := by rw [← heq]
    rw [haggregate]
    exact get?_aggregate_replay recencyWeight key hadds
  · intro keep
    rw [← retainKeys_replay, ← heq]

end MemoryBank

end Narrative

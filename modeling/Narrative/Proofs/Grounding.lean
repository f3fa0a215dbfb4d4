import Narrative.Proofs.Banks

/-!
# `Proofs.Grounding` — memory keys never dangle

A key in a memory is text, written when a path was taken and never looked up again. Characters,
categories and subtypes come and go in any order after that. Yet every key names a character of the
cast and a registered attribute, in one way only.

The invariant is that banks are **grounded**: each stored key is the key of a known target. A path
records known targets only; a step that takes a target away forgets its key; and since all names are
plain, a key that is kept is that of a target that survives.

## Contents
- **Grounded banks.** `MemoryBank.Grounded`, kept by each fate of a bank; `ReachableBy.grounded`.
- **Keys.** `ReachableBy.target_of_key`; the main result `memory_keys_never_dangle`.
-/

namespace Narrative

/-! ## Grounded banks -/

/-- A bank is **grounded** in a story if each key in a stored memory is that of a known target. -/
def MemoryBank.Grounded (b : MemoryBank) (s : Story) : Prop :=
  ∀ m ∈ b.memories, ∀ key, m.vector.weights.contains key = true → ∃ t : Target,
    key = t.memoryKey ∧ t.Known s

namespace Story

variable {P : Story → List ActionDecl → Prop} {s s' : Story} {b b' : MemoryBank} {name : String}

/-- Where all targets survive, a grounded bank stays grounded. -/
theorem grounded_of_survives (hb : b.Grounded s) (h : ∀ t : Target, t.Survives s s') :
    b.Grounded s' := by
  intro m hm key hkey
  obtain ⟨t, heq, hknown⟩ := hb m hm key hkey
  exact ⟨t, heq, hknown.survive (h t)⟩

/-- **Each fate keeps a bank grounded.** -/
theorem BankStep.grounded (h : BankStep s s' b b') (hs : s.Named) (hb : b.Grounded s) :
    b'.Grounded s' := by
  cases h with
  | kept hall => exact grounded_of_survives hb hall
  | @added m hall hm =>
    intro m' hm' key hkey
    rcases List.mem_append.mp hm' with hold | hnew
    · exact grounded_of_survives hb hall m' hold key hkey
    · rw [List.mem_singleton.mp hnew] at hkey
      obtain ⟨t, heq, hknown⟩ := hm key hkey
      exact ⟨t, heq, hknown.survive (hall t)⟩
  | @pruned keep hkept =>
    intro m' hm' key hkey
    obtain ⟨m, hm, rfl⟩ := List.mem_map.mp hm'
    obtain ⟨hkeep, hkey⟩ := Weights.contains_retain.mp hkey
    obtain ⟨t, rfl, hknown⟩ := hb m hm key hkey
    -- the target is plain, so a key that is kept is that of a target that survives
    exact ⟨t, rfl, hknown.survive (hkept t (hknown.plain hs) hkeep)⟩

/-- Every bank of a reachable story is grounded. -/
theorem ReachableBy.grounded (h : ReachableBy P s) :
    ∀ name c, s.cast.get? name = some c → c.memory.Grounded s := by
  refine h.bank_invariant (I := fun s b => b.Grounded s) ?_ ?_
  · exact fun _ _ hm => absurd hm List.not_mem_nil
  · exact fun _ _ _ _ _ hnamed hbank hgrounded => hbank.grounded hnamed hgrounded

/-! ## Keys -/

/-- A key is in the aggregate of a bank if it is in one of its memories. -/
theorem ReachableBy.contains_aggregate (h : ReachableBy P s) {c : Character}
    (hc : s.cast.get? name = some c) {key : String} : c.memory.aggregate.weights.contains key = true ↔
      ∃ m ∈ c.memory.memories, m.vector.weights.contains key = true := by
  obtain ⟨adds, hgrown⟩ := h.grown name c hc
  obtain ⟨heq, _⟩ := hgrown.eq_replay
  rw [heq, MemoryBank.contains_aggregate_replay, MemoryBank.memories_replay]

/-- A key in the aggregate or in a memory is that of a plain and known target. -/
theorem ReachableBy.target_of_key (h : ReachableBy P s) {c : Character}
    (hc : s.cast.get? name = some c) {v : Weights}
    (hv : v = c.memory.aggregate ∨ ∃ m ∈ c.memory.memories, v = m.vector) {key : String}
    (hkey : v.weights.contains key = true) :
    ∃ t : Target, t.Plain ∧ key = t.memoryKey ∧ t.Known s := by
  -- in either place the key comes from a memory
  obtain ⟨m, hm, hkey⟩ : ∃ m ∈ c.memory.memories, m.vector.weights.contains key = true := by
    rcases hv with rfl | ⟨m, hm, rfl⟩
    · exact (h.contains_aggregate hc).mp hkey
    · exact ⟨m, hm, hkey⟩
  obtain ⟨t, heq, hknown⟩ := h.grounded name c hc m hm key hkey
  exact ⟨t, hknown.plain h.named, heq, hknown⟩

/-- **Memory keys never dangle.** In every reachable story, each key in a stored memory or in an
aggregate is made of exactly one triple of names without separators; the first of them is the name
of a character of the cast, and the other two are a registered attribute. The keys of an aggregate
are those of the memories in its bank, all of them and no others. -/
theorem memory_keys_never_dangle (h : Reachable s) {c : Character} (hc : s.cast.get? name = some c) :
    (∀ v key, (v = c.memory.aggregate ∨ ∃ m ∈ c.memory.memories, v = m.vector) →
      v.weights.contains key = true →
      ∃ t : Target, t.Plain ∧ key = Key.memory t.character t.category t.subtype ∧
        (∀ u : Target, u.Plain → key = Key.memory u.character u.category u.subtype → u = t) ∧
        s.cast.contains t.character = true ∧ s.registry.contains t.category t.subtype = true) ∧
    ∀ key, c.memory.aggregate.weights.contains key = true ↔
      ∃ m ∈ c.memory.memories, m.vector.weights.contains key = true := by
  refine ⟨?_, fun key => h.contains_aggregate hc⟩
  intro v key hv hkey
  obtain ⟨t, hplain, rfl, hknown⟩ := h.target_of_key hc hv hkey
  obtain ⟨hcharacter, hattribute⟩ := Target.known_iff.mp hknown
  refine ⟨t, hplain, rfl, ?_, hcharacter, hattribute⟩
  intro u hu heq
  exact Target.memoryKey_injective hu hplain heq.symm

/-- In the story of the calm, Bob remembers of the first song how happy Ann was, and the mood is
still there. -/
theorem memory_keys_never_dangle_calmed :
    Reachable calmed ∧ ∃ c, calmed.cast.get? "Bob" = some c ∧
      c.memory.aggregate.weights.contains "Ann:Mood:happy" = true ∧
      (∃ m ∈ c.memory.memories, m.vector.weights.contains "Ann:Mood:happy" = true) ∧
      ∃ t : Target, t.Plain ∧ "Ann:Mood:happy" = Key.memory t.character t.category t.subtype ∧
        calmed.cast.contains t.character = true ∧
        calmed.registry.contains t.category t.subtype = true := by
  have hreach : Reachable calmed := reachable_calls (reachable_start_default _) _
  obtain ⟨c, hc⟩ : ∃ c, calmed.cast.get? "Bob" = some c := Option.isSome_iff_exists.mp (by decide)
  have hhappy : c.memory.aggregate.weights.contains "Ann:Mood:happy" = true := by
    have hfound :
        (calmed.cast.get? "Bob").all (·.memory.aggregate.weights.contains "Ann:Mood:happy") = true := by
      decide
    rw [hc] at hfound
    exact hfound
  obtain ⟨hkeys, hunion⟩ := memory_keys_never_dangle hreach hc
  obtain ⟨t, hplain, heq, _, hcharacter, hattribute⟩ := hkeys _ "Ann:Mood:happy" (.inl rfl) hhappy
  exact ⟨hreach, c, hc, hhappy, (hunion _).mp hhappy, t, hplain, heq, hcharacter, hattribute⟩

end Story

end Narrative

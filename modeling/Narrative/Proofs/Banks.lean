import Narrative.Proofs.Closed
import Narrative.Proofs.Keys
import Narrative.Proofs.Recording
import Narrative.Proofs.Replay

/-!
# `Proofs.Banks` — what a step does to the memory banks of a story

Names that may become parts of keys are checked where they enter a story, so that in every reachable
story all of them are plain. On that rests the inversion lemma for banks: of the fifteen kinds of
step, taking a path adds one memory, each removal of a definition forgets the keys about it and no
others, and all the rest leave every bank alone.

## Contents
- **Names.** `Registry.Plain`, kept by growing and shrinking; `Story.Named`.
- **Known targets.** `Target.Known`; they are plain and stay known as long as they survive.
- **Recorded keys.** `keys_recordAll`: what a path records stands under the keys of its effects.
- **Fates.** `BankStep`; what joining, taking a path and removals do to banks; the inversion lemma
  `Step.bank`.
- **Growth.** `ReachableBy.bank_invariant`; the main result `aggregate_replays_memories`.
-/

namespace Narrative
open Outcome

/-! ## Names -/

namespace Registry

variable {r r' : Registry} {category subtype : String} {d : Category}

/-- A registry is **plain** if the names of all categories and subtypes in it are. -/
def Plain (r : Registry) : Prop :=
  ∀ name d, r.category? name = some d → Key.Plain name ∧ ∀ subtype, d.hasSubtype subtype = true →
    Key.Plain subtype

theorem plain_empty : Plain empty := fun _ _ h => nomatch h

/-- What is in a set after others were added was there before or is one of them. -/
theorem of_contains_addAll {set : SortedSet String} {members : List String} {x : String}
    (h : SortedMap.contains (set.addAll members) x = true) : set.contains x = true ∨ x ∈ members := by
  induction members generalizing set with
  | nil => exact .inl h
  | cons y members ih =>
    rcases ih h with hold | hmem
    · unfold SortedMap.contains SortedSet.add at hold
      rw [SortedMap.get?_insert] at hold
      by_cases hx : x = y
      · exact .inr (hx ▸ List.mem_cons_self)
      · rw [if_neg hx] at hold
        exact .inl hold
    · exact .inr (List.mem_cons_of_mem _ hmem)

/-- All names in a declaration that is accepted are plain. -/
theorem plain_of_ofDecl {decl : CategoryDecl} (h : Category.ofDecl decl = .ok d) :
    Key.Plain decl.name ∧ ∀ subtype, d.hasSubtype subtype = true → Key.Plain subtype := by
  obtain ⟨_, hname, hsubtypes, _, _, rfl⟩ := Category.ofDecl_eq_ok.mp h
  refine ⟨Key.checkName_eq_ok.mp hname, ?_⟩
  intro subtype hsubtype
  have hdeclared : subtype ∈ decl.subtypes := by
    rcases of_contains_addAll hsubtype with hempty | hmem
    · cases hempty
    · exact hmem
  exact Key.checkName_eq_ok.mp (hsubtypes subtype hdeclared)

theorem plain_insert (hr : r.Plain) (hname : Key.Plain category)
    (hsubtypes : ∀ subtype, d.hasSubtype subtype = true → Key.Plain subtype) :
    Plain ⟨r.categories.insert category d⟩ := by
  intro name d' h
  rw [category?_insert] at h
  by_cases hn : name = category
  · rw [if_pos hn] at h
    cases h
    rw [hn]
    exact ⟨hname, hsubtypes⟩
  · rw [if_neg hn] at h
    exact hr name d' h

theorem Plain.addCategory {decl : CategoryDecl} (hr : r.Plain) (h : r.addCategory decl = .ok r') :
    r'.Plain := by
  obtain ⟨d, hd, _, _, rfl⟩ := addCategory_eq_ok h
  obtain ⟨hname, hsubtypes⟩ := plain_of_ofDecl hd
  exact plain_insert hr hname hsubtypes

theorem Plain.addSubtypes {name : String} {subtypes : List String} (hr : r.Plain)
    (h : r.addSubtypes name subtypes = .ok r') : r'.Plain := by
  obtain ⟨d, hd, hchecked, rfl⟩ := addSubtypes_eq_ok h
  obtain ⟨hname, hold⟩ := hr name d hd
  refine plain_insert hr hname fun subtype hsubtype => ?_
  rcases of_contains_addAll hsubtype with hset | hmem
  · exact hold subtype hset
  · exact Key.checkName_eq_ok.mp (hchecked subtype hmem)

theorem Plain.removeCategory (hr : r.Plain) (removed : String) : (r.removeCategory removed).Plain := by
  intro name d h
  rw [category?_removeCategory] at h
  by_cases hn : name = removed
  · rw [if_pos hn] at h; cases h
  · rw [if_neg hn] at h
    exact hr name d h

theorem Plain.removeSubtype (hr : r.Plain) (removed gone : String) :
    (r.removeSubtype removed gone).Plain := by
  intro name d h
  rw [category?_removeSubtype] at h
  by_cases hn : name = removed
  · rw [if_pos hn] at h
    obtain ⟨d₀, hd₀, rfl⟩ := Option.map_eq_some_iff.mp h
    obtain ⟨hname, hsubtypes⟩ := hr removed d₀ hd₀
    refine ⟨hn ▸ hname, fun subtype hsubtype => hsubtypes subtype ?_⟩
    -- a subtype that is left was there before
    have hleft : ((d₀.subtypes.erase gone).get? subtype).isSome = true := hsubtype
    rw [SortedMap.get?_erase] at hleft
    by_cases hs : subtype = gone
    · rw [if_pos hs] at hleft; cases hleft
    · rw [if_neg hs] at hleft
      exact hleft
  · rw [if_neg hn] at h
    exact hr name d h

end Registry

/-- A story is **named** if its characters stand under their own names, and all names in it are plain. -/
structure Story.Named (s : Story) : Prop where
  characters : ∀ {name : String} {c : Character}, s.cast.get? name = some c →
    c.name = name ∧ Key.Plain name
  registry : s.registry.Plain

/-! ## Known targets -/

namespace Target

variable {s s' : Story} {t : Target}

/-- A target is **known** to a story if its character is in the cast and its attribute is registered. -/
def Known (t : Target) (s : Story) : Prop := t.ClosedIn s fun _ => True

theorem known_iff :
    t.Known s ↔
      s.cast.contains t.character = true ∧ s.registry.contains t.category t.subtype = true := by
  refine and_congr_right fun _ => ?_
  rw [Registry.contains_iff]
  exact exists_congr fun d => and_iff_left trivial

theorem Known.survive (h : t.Known s) (ht : t.Survives s s') : t.Known s' :=
  ClosedIn.survive h ht fun _ _ _ => id

/-- Where all names are plain, known targets are. -/
theorem Known.plain (h : t.Known s) (hs : s.Named) : t.Plain := by
  obtain ⟨hcharacter, d, hd, _⟩ := h
  obtain ⟨c, hc⟩ := Cast.contains_iff.mp hcharacter
  obtain ⟨hcategory, hsubtype⟩ := Registry.check_eq_ok.mp hd
  obtain ⟨hplain, hsubtypes⟩ := hs.registry t.category d hcategory
  exact ⟨(hs.characters hc).2, hplain, hsubtypes t.subtype hsubtype⟩

end Target

/-! ## Recorded keys -/

/-- **What effects record stands under the keys of their targets.** -/
theorem Registry.keys_recordAll {ω : Type} [World ω] {r : Registry} {es : List Effect}
    {m m' : Memory} {w : ω} (h : (r.recordAll es m w).result = .ok m') {key : String}
    (hkey : m'.vector.weights.contains key = true) :
    m.vector.weights.contains key = true ∨ ∃ e ∈ es, key = e.toTarget.memoryKey := by
  induction es generalizing m w with
  | nil =>
    cases h
    exact .inl hkey
  | cons e es ih =>
    rw [recordAll, andThen_result_ok] at h
    obtain ⟨change, _, h⟩ := h
    rcases ih h with hencoded | ⟨e', he', heq⟩
    · rcases Memory.contains_encode.mp hencoded with hold | ⟨_, heq⟩
      · exact .inl hold
      · exact .inr ⟨e, List.mem_cons_self, heq⟩
    · exact .inr ⟨e', List.mem_cons_of_mem _ he', heq⟩

/-! ## Fates -/

namespace Story

variable {P : Story → List ActionDecl → Prop} {s s' : Story} {name : String}

/-- What may become of a memory bank in a step. -/
inductive BankStep (s s' : Story) (b : MemoryBank) : MemoryBank → Prop where
  /-- It stays, and so do all targets. -/
  | kept (h : ∀ t : Target, t.Survives s s') : BankStep s s' b b
  /-- It gets a memory of changes to known targets. -/
  | added {m : Memory} (h : ∀ t : Target, t.Survives s s')
    (hm : ∀ key, m.vector.weights.contains key = true → ∃ t : Target, key = t.memoryKey ∧ t.Known s) :
    BankStep s s' b (b.add m)
  /-- It forgets keys, and the targets of those that are kept survive. -/
  | pruned {keep : String → Bool}
    (h : ∀ t : Target, t.Plain → keep t.memoryKey = true → t.Survives s s') :
    BankStep s s' b (b.retainKeys keep)

/-- A name under which a character can be removed is plain. -/
theorem Named.removed_plain (hs : s.Named) {removed : String} (h : s.removeCharacter removed = .ok s') :
    Key.Plain removed := by
  obtain ⟨c, hc, _⟩ := bind_eq_ok.mp h
  rw [character?_eq_ok] at hc
  exact (hs.characters hc).2

/-- What a path that passes the checks records is about known targets. -/
theorem recorded_of_checked {path : List Uid} {es : List Effect} {m : Memory}
    (hes : s.checkedEffects? name path = .ok es)
    (h : (s.registry.recordAll es (.new path) s.cast).result = .ok m) :
    ∀ key, m.vector.weights.contains key = true → ∃ t : Target, key = t.memoryKey ∧ t.Known s := by
  intro key hkey
  rcases Registry.keys_recordAll h hkey with hnew | ⟨e, he, heq⟩
  · cases hnew
  · obtain ⟨_, _, _, hchecks⟩ := checkedEffects?_eq_ok.mp hes
    obtain ⟨hcheck, htarget⟩ := hchecks e he
    obtain ⟨d, hd, _⟩ := Registry.checkEffect_eq_ok.mp hcheck
    exact ⟨e.toTarget, heq, htarget, d, hd, trivial⟩

/-- A step that touches no bank, no name and no attribute. -/
theorem bank_of_same {t : Story} {c' : Character} (hc' : t.cast.get? name = some c')
    (h : s.cast.Same (fun c => (c.name, c.memory)) t.cast) (hr : t.registry = s.registry) :
    ∃ c, s.cast.get? name = some c ∧ c'.name = c.name ∧ BankStep s t c.memory c'.memory := by
  obtain ⟨c, hc, hview⟩ := h.view_eq hc'
  obtain ⟨hname, hmemory⟩ := Prod.mk.inj hview
  exact ⟨c, hc, hname.symm, hmemory ▸ .kept (survives_of_same h.contains hr)⟩

/-- A character who joins comes with a new bank, under a plain name, and touches no other bank. -/
theorem bank_of_join {joined : String} {cast : Cast}
    (h : s.cast.insert (.new joined s.settings.recencyWeight) = .ok cast) {c' : Character}
    (hc' : cast.get? name = some c') :
    (c' = .new name s.settings.recencyWeight ∧ Key.Plain name) ∨
      ∃ c, s.cast.get? name = some c ∧ c'.name = c.name ∧
        BankStep s { s with cast := cast } c.memory c'.memory := by
  obtain ⟨_, hplain, _, hget⟩ := Cast.insert_eq_ok h
  rw [hget] at hc'
  split at hc'
  · next hn =>
    cases hc'
    exact .inl ⟨by rw [hn]; rfl, hn ▸ Key.checkName_eq_ok.mp hplain⟩
  · exact .inr ⟨c', hc', rfl, .kept (survives_join h)⟩

/-- A path that is taken adds a memory to the bank of the one who took it, and touches no other bank. -/
theorem bank_of_play {owner : String} {path : List Uid} {es : List Effect} {m : Memory}
    {cast : Cast} (hes : s.checkedEffects? owner path = .ok es)
    (h : s.registry.recordAll es (.new path) s.cast = .ok m cast) {c' : Character}
    (hc' : (cast.update owner fun c => { c with memory := c.memory.add m }).get? name = some c') :
    ∃ c, s.cast.get? name = some c ∧ c'.name = c.name ∧
      BankStep s { s with cast := cast.update owner fun c => { c with memory := c.memory.add m } }
        c.memory c'.memory := by
  have hrun :
      s.cast.Same (fun c => (c.name, c.memory)) (s.registry.recordAll es (.new path) s.cast).state :=
    Cast.same_recordAll (fun _ _ => rfl) s.registry es (.new path) s.cast
  rw [h] at hrun
  have hsurvives : ∀ t : Target, t.Survives s { s with cast := cast.update owner fun c =>
      { c with memory := c.memory.add m } } :=
    survives_of_same (fun name => (Cast.contains_update cast owner _ name).trans (hrun.contains name))
      rfl
  rw [Cast.get?_update] at hc'
  by_cases hn : name = owner
  · rw [if_pos hn] at hc'
    obtain ⟨c₁, hc₁, rfl⟩ := Option.map_eq_some_iff.mp hc'
    obtain ⟨c, hc, hview⟩ := hrun.view_eq hc₁
    obtain ⟨hname, hmemory⟩ := Prod.mk.inj hview
    refine ⟨c, hn ▸ hc, hname.symm, ?_⟩
    show BankStep s _ c.memory (c₁.memory.add m)
    rw [← hmemory]
    exact .added hsurvives (recorded_of_checked hes (by rw [h]; rfl))
  · rw [if_neg hn] at hc'
    obtain ⟨c, hc, hview⟩ := hrun.view_eq hc'
    obtain ⟨hname, hmemory⟩ := Prod.mk.inj hview
    exact ⟨c, hc, hname.symm, hmemory ▸ .kept hsurvives⟩

/-- A removal makes the bank of a character forget keys, and no targets are lost but those of such
keys. -/
theorem bank_of_pruning {f : Character → Character} {keep : String → Bool} {c' : Character}
    (hc' : (s.cast.get? name).map f = some c') (hname : ∀ c, (f c).name = c.name)
    (hmemory : ∀ c, (f c).memory = c.memory.retainKeys keep)
    (hkeep : ∀ t : Target, t.Plain → keep t.memoryKey = true → t.Survives s s') :
    ∃ c, s.cast.get? name = some c ∧ c'.name = c.name ∧ BankStep s s' c.memory c'.memory := by
  obtain ⟨c, hc, rfl⟩ := Option.map_eq_some_iff.mp hc'
  exact ⟨c, hc, hname c, hmemory c ▸ .pruned hkeep⟩

/-- **What a step does to a memory bank**, unless the bank is that of a new character. -/
theorem Step.bank (hstep : Step P s s') (hs : s.Named) {c' : Character}
    (hc' : s'.cast.get? name = some c') :
    (c' = .new name s.settings.recencyWeight ∧ Key.Plain name) ∨
      ∃ c, s.cast.get? name = some c ∧ c'.name = c.name ∧ BankStep s s' c.memory c'.memory := by
  cases hstep with
  | define h =>
    exact .inr ⟨c', hc', rfl, .kept (survives_of_grown (fun _ => id) (Registry.extends_addCategory h))⟩
  | grow h =>
    exact .inr ⟨c', hc', rfl, .kept (survives_of_grown (fun _ => id) (Registry.extends_addSubtypes h))⟩
  | join h => exact bank_of_join h hc'
  | play _ hes h => exact .inr (bank_of_play hes h hc')
  | removeCategory h =>
    rw [(removeCategory_ok h).2.2.2] at hc'
    refine .inr (bank_of_pruning hc' (fun _ => rfl) (fun _ => rfl) fun t ht hkeep => ?_)
    exact survives_removeCategory h ((Target.kept_by_category ht _).mp hkeep)
  | removeSubtype h =>
    rw [(removeSubtype_ok h).2.2.2] at hc'
    refine .inr (bank_of_pruning hc' (fun _ => rfl) (fun _ => rfl) fun t ht hkeep => ?_)
    exact survives_removeSubtype h ((Target.kept_by_subtype ht _ _).mp hkeep)
  | removeCharacter h =>
    have hplain := hs.removed_plain h
    rw [(removeCharacter_ok h).2.2.2] at hc'
    split at hc'
    · cases hc'
    · refine .inr (bank_of_pruning hc' (fun _ => rfl) (fun _ => rfl) fun t ht hkeep => ?_)
      exact survives_removeCharacter h ((Target.kept_by_character ht hplain).mp hkeep)
  -- all other steps leave names and banks alone
  | enact e => exact .inr (bank_of_same hc' (Cast.same_enact (fun _ _ => rfl) s.registry s.cast e) rfl)
  | @read owner => exact .inr (bank_of_same hc' (Cast.same_setSheet (fun _ _ => rfl) s.cast owner _) rfl)
  | @extend owner => exact .inr (bank_of_same hc' (Cast.same_update s.cast owner fun _ => rfl) rfl)
  | draw _ | tune _ => exact .inr (bank_of_same hc' (Cast.same_refl _ s.cast) rfl)
  | @removeAction owner gone _ h =>
    obtain rfl := removeAction_ok h
    exact .inr (bank_of_same hc' (Cast.same_update s.cast owner fun _ => rfl) rfl)
  | removePreconditions _ | removeEffects _ =>
    exact .inr (bank_of_same hc' (Cast.same_updateAll s.cast fun _ => rfl) rfl)

/-- **Every step keeps a story named.** -/
theorem Named.step (hstep : Step P s s') (hs : s.Named) : s'.Named := by
  refine ⟨fun {name c'} hc' => ?_, ?_⟩
  · rcases hstep.bank hs hc' with ⟨rfl, hplain⟩ | ⟨c, hc, hname, _⟩
    · exact ⟨rfl, hplain⟩
    · obtain ⟨hown, hplain⟩ := hs.characters hc
      exact ⟨hname.trans hown, hplain⟩
  · cases hstep with
    | define h => exact hs.registry.addCategory h
    | grow h => exact hs.registry.addSubtypes h
    | removeCategory h =>
      obtain ⟨_, _, hr, _⟩ := removeCategory_ok h
      rw [hr]
      exact hs.registry.removeCategory _
    | removeSubtype h =>
      obtain ⟨_, _, hr, _⟩ := removeSubtype_ok h
      rw [hr]
      exact hs.registry.removeSubtype _ _
    | removeCharacter h =>
      obtain ⟨_, _, hr, _⟩ := removeCharacter_ok h
      rw [hr]
      exact hs.registry
    | removeAction h =>
      rw [removeAction_ok h]
      exact hs.registry
    | _ => exact hs.registry

theorem named_start (settings : Settings) (source : Source) : (start settings source).Named :=
  ⟨fun hc => (nomatch hc), Registry.plain_empty⟩

/-- Every reachable story is named. -/
theorem ReachableBy.named (h : ReachableBy P s) : s.Named :=
  h.invariant (fun settings source _ => named_start settings source) fun _ _ => Named.step

/-! ## Growth -/

/-- No step changes how much a step of memory weighs. -/
theorem Step.recencyWeight (hstep : Step P s s') :
    s'.settings.recencyWeight = s.settings.recencyWeight := by
  cases hstep with
  | removeCategory h => rw [(removeCategory_ok h).1]
  | removeSubtype h => rw [(removeSubtype_ok h).1]
  | removeCharacter h => rw [(removeCharacter_ok h).1]
  | removeAction h => rw [removeAction_ok h]
  | _ => rfl

/-- What holds of new banks and is kept by each fate holds of every bank of a reachable story. -/
theorem ReachableBy.bank_invariant {I : Story → MemoryBank → Prop} (h : ReachableBy P s)
    (hnew : ∀ s, I s (.new s.settings.recencyWeight))
    (hkeep : ∀ s s' b b', Step P s s' → s.Named → BankStep s s' b b' → I s b → I s' b') :
    ∀ name c, s.cast.get? name = some c → I s c.memory := by
  -- the names are part of the invariant because the inversion lemma asks for them
  refine (h.invariant (I := fun s => s.Named ∧ ∀ name c, s.cast.get? name = some c →
    I s c.memory) ?_ ?_).2
  · intro settings source _
    exact ⟨named_start settings source, fun _ _ hc => nomatch hc⟩
  · intro s s' hstep hs
    obtain ⟨hnamed, hbanks⟩ := hs
    refine ⟨hnamed.step hstep, fun name c' hc' => ?_⟩
    rcases hstep.bank hnamed hc' with ⟨rfl, _⟩ | ⟨c, hc, _, hbank⟩
    · rw [← hstep.recencyWeight]
      exact hnew s'
    · exact hkeep s s' c.memory c'.memory hstep hnamed hbank (hbanks name c hc)

theorem BankStep.grown {b b' : MemoryBank} (h : BankStep s s' b b') {recencyWeight : Binary32}
    (hb : ∃ adds, b.Grown recencyWeight adds) : ∃ adds, b'.Grown recencyWeight adds := by
  obtain ⟨adds, hadds⟩ := hb
  cases h with
  | kept _ => exact ⟨adds, hadds⟩
  | added _ _ => exact ⟨adds + 1, hadds.add _⟩
  | pruned _ => exact ⟨adds, hadds.retainKeys _⟩

/-- **Every bank of a reachable story has come about by adding and forgetting**, from a new bank of
the recency weight in the settings. -/
theorem ReachableBy.grown (h : ReachableBy P s) : ∀ name c, s.cast.get? name = some c →
    ∃ adds, c.memory.Grown s.settings.recencyWeight adds := by
  refine h.bank_invariant (I := fun s b => ∃ adds, b.Grown s.settings.recencyWeight adds) ?_ ?_
  · exact fun _ => ⟨0, .new⟩
  · intro s s' b b' hstep _ hbank hgrown
    rw [hstep.recencyWeight]
    exact hbank.grown hgrown

/-- **The aggregate is at any time a replay of the stored memories.** Take any bank that came about
from a new one by adding memories, fewer than the step counter can count, and by forgetting keys in
between; or the bank of any character in any reachable story, with as many memories. Its steps are
the number of stored memories, its aggregate is that of a new bank of the same recency weight to
which these are added in order, key by key with the same additions in the same order, and forgetting
keys has the same effect on the aggregate as if they had never been recorded. No law of `Binary32`
is used. -/
theorem aggregate_replays_memories (recencyWeight : Binary32) :
    (∀ adds b, MemoryBank.Grown recencyWeight adds b → adds < 2 ^ 32 → b.Retells recencyWeight) ∧
    ∀ s, Reachable s → ∀ name c, s.cast.get? name = some c → c.memory.memories.length < 2 ^ 32 →
      c.memory.recencyWeight = s.settings.recencyWeight ∧ c.memory.Retells s.settings.recencyWeight := by
  refine ⟨fun _ _ hgrown hadds => hgrown.retells hadds, ?_⟩
  intro s hs name c hc hlength
  obtain ⟨adds, hgrown⟩ := hs.grown name c hc
  obtain ⟨heq, hadds⟩ := hgrown.eq_replay
  refine ⟨?_, hgrown.retells (hadds ▸ hlength)⟩
  rw [heq]
  exact MemoryBank.recencyWeight_replay _ _

/-- Bob makes Ann calm and happy; then calmness is taken out of the story and defined anew, and he
calms her once more. -/
def calmed : Story :=
  [Operation.loadCategories [.numeric "Mood" ["happy", "calm"] 0 10 5], .loadCharacters ["Ann", "Bob"],
    .loadActions "Bob" [{ ActionDecl.new 1 "Sing" with
      first := true
      effects := [⟨⟨"Ann", "Mood", "calm"⟩, .add, .int 2⟩, ⟨⟨"Ann", "Mood", "happy"⟩, .add, .int 2⟩] }],
    .execute "Bob" [1], .removeSubtype "Mood" "calm", .loadCategories [.numeric "Mood" ["calm"] 0 10 5],
    .loadActions "Bob" [{ ActionDecl.new 2 "Hum" with
      first := true
      effects := [⟨⟨"Ann", "Mood", "calm"⟩, .add, .int 1⟩] }],
    .execute "Bob" [2]].foldl (fun s op => op.after s) (start .default (.listed []))

/-- A bank that forgets a key between two memories that have it. -/
def interrupted : MemoryBank :=
  (((MemoryBank.new .one).add ⟨[1], Weights.empty.set "Ann:Mood:calm" .one⟩).retainKeys
    fun _ => false).add
    ⟨[2], Weights.empty.set "Ann:Mood:calm" .one⟩

/-- In both the calm of the first memory is gone without a trace, and that of the second is added to
nothing, as part of the second step. -/
theorem aggregate_replays_memories_calmed :
    (interrupted.steps.toNat = 2 ∧ interrupted.aggregate.weights.get? "Ann:Mood:calm" =
      some (.sumFrom .zero [Binary32.one + Binary32.one * Binary32.ofInt 1])) ∧
    Reachable calmed ∧ ∃ c, calmed.cast.get? "Bob" = some c ∧ c.memory.steps.toNat = 2 ∧
      c.memory.aggregate =
        (MemoryBank.replay calmed.settings.recencyWeight c.memory.memories).aggregate ∧
      ∃ w, c.memory.aggregate.weights.get? "Ann:Mood:calm" = some (.sumFrom .zero [w]) := by
  have hreach : Reachable calmed := reachable_calls (reachable_start_default _) _
  obtain ⟨hbanks, _⟩ := aggregate_replays_memories .one
  obtain ⟨_, hstories⟩ := aggregate_replays_memories calmed.settings.recencyWeight
  constructor
  · have hgrown : interrupted.Grown .one 2 := ((MemoryBank.Grown.new.add _).retainKeys _).add _
    have hretells := hbanks 2 interrupted hgrown (by decide)
    refine ⟨hretells.steps, ?_⟩
    rw [hretells.keywise]
    rfl
  · obtain ⟨c, hc⟩ : ∃ c, calmed.cast.get? "Bob" = some c := Option.isSome_iff_exists.mp (by decide)
    have hlength : (calmed.cast.get? "Bob").map (·.memory.memories.length) = some 2 := by decide
    have hcalm : (calmed.cast.get? "Bob").map (fun c =>
        (MemoryBank.additions calmed.settings.recencyWeight "Ann:Mood:calm" c.memory.memories).length) =
          some 1 := by decide
    rw [hc] at hlength hcalm
    have hmemories : c.memory.memories.length = 2 := Option.some.inj hlength
    obtain ⟨_, hretells⟩ := hstories calmed hreach "Bob" c hc (by rw [hmemories]; decide)
    refine ⟨hreach, c, hc, hretells.steps.trans hmemories, hretells.aggregate, ?_⟩
    obtain ⟨w, hw⟩ := List.length_eq_one_iff.mp (Option.some.inj hcalm)
    refine ⟨w, ?_⟩
    rw [hretells.keywise, hw]
    rfl

end Story

end Narrative

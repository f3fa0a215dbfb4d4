import Narrative.Proofs.Recording

/-!
# `Proofs.Layers` — a scratch layer is as good as a full copy

A scratch layer copies a sheet when it is written first, and reads all others from the world below.
It may be forked at any time, and the forks go on apart. Nobody who works with layers can tell:
whatever is done with them, in any order, each layer answers as a full copy of the world below would
on which the same things had been done, all those before the fork included. That holds for writes
that fail as well, which may still have brought a sheet into the layer.

Two arguments are put together. What a world answers, and what it turns into, depends on the sheets
that it shows and on nothing else (`Use.answer_alike`, `Use.after_alike`), and a fresh layer shows
what the world below does. And a pool of worlds that are used and forked is nothing but a list of
their **histories** (`pool_eq`), whatever the worlds are.

## Contents
- **Uses.** `Use`, with its `answer` and what the world is `after` it; both depend on the sheets alone.
- **Pools.** `Command`, `pool` and `histories`; `pool_eq`.
- **The main result** is `layers_like_copies`.
-/

namespace Narrative
open Outcome

variable {ω ω' : Type} [World ω] [World ω'] {r : Registry} {name : String}

/-! ## Uses -/

/-- What can be done with a world. -/
inductive Use where
  | enact (e : Effect)
  | evaluateInPlace (p : Precondition)
  | evaluate (p : Precondition)
  | resolve (t : Target)
  | look (name : String)

/-- What comes of it. -/
inductive Answer where
  | change (x : Except EvaluationError Change)
  | decision (x : Except EvaluationError Bool)
  | value (x : Except EvaluationError Value)
  | sheet (x : Option Sheet)

namespace Use

/-- The character whose sheet is used. -/
def character : Use → String
  | enact e => e.character
  | evaluateInPlace p => p.character
  | evaluate p => p.character
  | resolve t => t.character
  | look name => name

/-- What a world answers. -/
def answer (r : Registry) (w : ω) : Use → Answer
  | enact e => .change (r.enact w e).result
  | evaluateInPlace p => .decision (r.evaluateInPlace w p).result
  | evaluate p => .decision (r.evaluate w p)
  | resolve t => .value (r.resolve w t)
  | look name => .sheet (sheet? w name)

/-- The world afterwards, whether the use has succeeded or failed. -/
def after (r : Registry) (w : ω) : Use → ω
  | enact e => (r.enact w e).state
  | evaluateInPlace p => (r.evaluateInPlace w p).state
  | evaluate _ => w
  | resolve _ => w
  | look _ => w

/-- The answer where there is no such character. -/
def refusal : Use → Answer
  | enact e => .change (.error (.unknownCharacter e.character))
  | evaluateInPlace p => .decision (.error (.unknownCharacter p.character))
  | evaluate p => .decision (.error (.unknownCharacter p.character))
  | resolve t => .value (.error (.unknownCharacter t.character))
  | look _ => .sheet none

end Use

namespace Use

/-- What comes of a use where the sheet is this one. -/
def reply (r : Registry) (s : Sheet) : Use → Answer
  | enact e => .change (s.mutate r e.category e.subtype e.op e.value).result
  | evaluateInPlace p =>
    .decision ((s.materialize r p.category p.subtype).result.bind (p.holdsOf ·.value))
  | evaluate p => .decision do
    let d ← r.check p.category p.subtype
    p.holdsOf ((s.value? p.category p.subtype).getD d.default)
  | resolve t => .value do
    let d ← r.check t.category t.subtype
    return (s.value? t.category t.subtype).getD d.default
  | look _ => .sheet (some s)

/-- The sheet that a use writes where the sheet is this one, if it writes at all. -/
def written? (r : Registry) (s : Sheet) : Use → Option Sheet
  | enact e => some (s.mutate r e.category e.subtype e.op e.value).state
  | evaluateInPlace p => some (s.materialize r p.category p.subtype).state
  | evaluate _ => none
  | resolve _ => none
  | look _ => none

/-- **An answer depends on one sheet.** -/
theorem answer_eq (r : Registry) (w : ω) (u : Use) :
    u.answer r w = (sheet? w u.character).elim u.refusal (reply r · u) := by
  cases u with
  | enact e =>
    show Answer.change (Registry.onSheet w e.character _).result = (sheet? w e.character).elim _ _
    unfold Registry.onSheet
    cases sheet? w e.character <;> rfl
  | evaluateInPlace p =>
    show Answer.decision ((Registry.onSheet w p.character _).andThen _).result =
      (sheet? w p.character).elim _ _
    unfold Registry.onSheet
    cases sheet? w p.character with
    | none => rfl
    | some s =>
      show Answer.decision (Attempt.andThen ((s.materialize r p.category p.subtype).within _) _).result =
        Answer.decision ((s.materialize r p.category p.subtype).result.bind _)
      unfold Attempt.andThen Attempt.within
      cases (s.materialize r p.category p.subtype).result <;> rfl
  | evaluate p =>
    show Answer.decision (r.evaluate w p) = (sheet? w p.character).elim _ _
    unfold Registry.evaluate Registry.resolve
    cases sheet? w p.character with
    | none => rfl
    | some s =>
      show Answer.decision _ = Answer.decision _
      cases r.check p.category p.subtype <;> rfl
  | resolve t =>
    show Answer.value (r.resolve w t) = (sheet? w t.character).elim _ _
    unfold Registry.resolve
    cases sheet? w t.character <;> rfl
  | look name =>
    show Answer.sheet (sheet? w name) = (sheet? w name).elim _ _
    cases sheet? w name <;> rfl

/-- **So does what is written**, and it is written in the same place. -/
theorem after_eq (r : Registry) (w : ω) (u : Use) :
    u.after r w = ((sheet? w u.character).bind (written? r · u)).elim w (setSheet w u.character) := by
  cases u with
  | enact e =>
    show (Registry.onSheet w e.character _).state = ((sheet? w e.character).bind _).elim w _
    unfold Registry.onSheet
    cases sheet? w e.character <;> rfl
  | evaluateInPlace p =>
    show ((Registry.onSheet w p.character _).andThen _).state = ((sheet? w p.character).bind _).elim w _
    unfold Registry.onSheet
    cases sheet? w p.character with
    | none => rfl
    | some s =>
      show (Attempt.andThen ((s.materialize r p.category p.subtype).within _) _).state =
        setSheet w p.character _
      unfold Attempt.andThen Attempt.within
      cases (s.materialize r p.category p.subtype).result <;> rfl
  | evaluate p => show w = _; cases sheet? w (evaluate p).character <;> rfl
  | resolve t => show w = _; cases sheet? w (resolve t).character <;> rfl
  | look name => show w = _; cases sheet? w (look name).character <;> rfl

theorem answer_of_none {w : ω} {u : Use} (h : sheet? w u.character = none) :
    u.answer r w = u.refusal := by
  rw [answer_eq, h]
  rfl

/-- A use that writes has found a sheet to write on. -/
theorem after_cases (r : Registry) (w : ω) (u : Use) : u.after r w = w ∨
    ∃ s t, sheet? w u.character = some s ∧ written? r s u = some t ∧
      u.after r w = setSheet w u.character t := by
  rw [after_eq]
  cases hw : sheet? w u.character with
  | none => exact .inl rfl
  | some s =>
    cases ht : written? r s u with
    | none => exact .inl (by rw [Option.bind_some, ht]; rfl)
    | some t => exact .inr ⟨s, t, rfl, ht, by rw [Option.bind_some, ht]; rfl⟩

/-- Worlds that look alike answer alike. -/
theorem answer_alike {w : ω} {v : ω'} (h : World.Alike w v) (u : Use) : u.answer r w = u.answer r v := by
  rw [answer_eq, answer_eq, h]

/-- **Worlds that look alike still do afterwards.** -/
theorem after_alike [LawfulWorld ω] [LawfulWorld ω'] {w : ω} {v : ω'} (h : World.Alike w v) (u : Use) :
    World.Alike (u.after r w) (u.after r v) := by
  rw [after_eq, after_eq, h]
  cases hv : sheet? v u.character with
  | none => exact h
  | some s =>
    rw [Option.bind_some]
    cases written? r s u with
    | none => exact h
    | some t =>
      intro name
      show sheet? (setSheet w u.character t) name = sheet? (setSheet v u.character t) name
      rw [LawfulWorld.sheet?_setSheet w u.character name t (by rw [h, hv]; rfl),
        LawfulWorld.sheet?_setSheet v u.character name t (by rw [hv]; rfl), h name]

/-- No use brings a character in or takes one out. -/
theorem isSome_sheet?_after [LawfulWorld ω] (w : ω) (u : Use) (name : String) :
    (sheet? (u.after r w) name).isSome = (sheet? w name).isSome := by
  rcases after_cases r w u with hsame | ⟨s, t, hs, _, hset⟩
  · rw [hsame]
  · rw [hset]
    exact isSome_sheet?_setSheet (by rw [hs]; rfl) t name

/-- Writing into a layer leaves the world below alone. -/
theorem base_after (l : Scratch ω) (u : Use) : (u.after r l).base = l.base := by
  rcases after_cases r l u with hsame | ⟨_, _, _, _, hset⟩
  · rw [hsame]
  · rw [hset]
    rfl

/-- The world after several uses. -/
def afterAll (r : Registry) (w : ω) (us : List Use) : ω := us.foldl (fun w u => u.after r w) w

theorem afterAll_alike [LawfulWorld ω] [LawfulWorld ω'] {w : ω} {v : ω'} (h : World.Alike w v)
    (us : List Use) :
    World.Alike (afterAll r w us) (afterAll r v us) := by
  induction us generalizing w v with
  | nil => exact h
  | cons u us ih => exact ih (after_alike h u)

theorem isSome_sheet?_afterAll [LawfulWorld ω] (w : ω) (us : List Use) (name : String) :
    (sheet? (afterAll r w us) name).isSome = (sheet? w name).isSome := by
  induction us generalizing w with
  | nil => rfl
  | cons u us ih => exact (ih (u.after r w)).trans (isSome_sheet?_after w u name)

theorem base_afterAll (l : Scratch ω) (us : List Use) : (afterAll r l us).base = l.base := by
  induction us generalizing l with
  | nil => rfl
  | cons u us ih => exact (ih (u.after r l)).trans (base_after l u)

end Use

/-! ## Pools -/

/-- What can be done with a pool of worlds, counted from zero: use one of them, or fork one, which
comes last then. -/
inductive Command where
  | use (i : Nat) (u : Use)
  | fork (i : Nat)

namespace Command

/-- What a command does to a pool of whatever can be used. -/
def run {σ : Type} (step : σ → Use → σ) (pool : List σ) : Command → List σ
  | use i u => pool.modify i (step · u)
  | fork i => pool ++ pool[i]?.toList

/-- The pool that commands make of one world. -/
def pool (r : Registry) (w : ω) (cs : List Command) : List ω := cs.foldl (run fun w u => u.after r w) [w]

/-- What has been done with each world of a pool. A fork has the history of the world that it was
forked from. -/
def histories (cs : List Command) : List (List Use) := cs.foldl (run fun us u => us ++ [u]) [[]]

/-- Commands do not look at what is in a pool. -/
theorem map_run {σ τ : Type} {step : σ → Use → σ} {step' : τ → Use → τ} {f : σ → τ}
    (hf : ∀ x u, f (step x u) = step' (f x) u) (xs : List σ) (c : Command) :
    (run step xs c).map f = run step' (xs.map f) c := by
  cases c with
  | use i u =>
    refine List.ext_getElem? fun j => ?_
    show ((xs.modify i (step · u)).map f)[j]? = ((xs.map f).modify i (step' · u))[j]?
    rw [List.getElem?_map, List.getElem?_modify, List.getElem?_modify, List.getElem?_map]
    cases xs[j]? with
    | none => rfl
    | some x =>
      by_cases hi : i = j
      · simp [hi, hf]
      · simp [hi]
  | fork i =>
    show (xs ++ xs[i]?.toList).map f = xs.map f ++ (xs.map f)[i]?.toList
    rw [List.map_append, List.getElem?_map, Option.toList_map]

/-- **Each world of a pool is what its history has made of the first one.** -/
theorem pool_eq (r : Registry) (w : ω) (cs : List Command) :
    pool r w cs = (histories cs).map (Use.afterAll r w) := by
  have hconcat : ∀ us u, Use.afterAll r w (us ++ [u]) = u.after r (Use.afterAll r w us) :=
    fun us u => List.foldl_concat ..
  unfold pool histories
  show cs.foldl _ ([[]].map (Use.afterAll r w)) = _
  exact List.foldl_hom (List.map (Use.afterAll r w)) fun us c => (map_run hconcat us c).symm

/-- A use of one world leaves the others as they are. -/
theorem getElem?_pool_use (r : Registry) (w : ω) (cs : List Command) {i j : Nat} (hj : j ≠ i) (u : Use) :
    (pool r w (cs ++ [use j u]))[i]? = (pool r w cs)[i]? := by
  unfold pool
  rw [List.foldl_concat]
  show (List.modify _ j _)[i]? = _
  rw [List.getElem?_modify]
  simp [hj]

end Command

/-! ## The main result -/

open Command

/-- **Layers are used and forked as full copies would be.** Take any world below, and any commands
to a fresh layer over it. Each of the layers that there are then has the world below unchanged. To
every use it answers as the world itself does after the history of that layer. A character that the
world below does not have is unknown to every layer. What is done with one layer does not show in
the others. -/
theorem layers_like_copies [LawfulWorld ω] (r : Registry) (base : ω) (cs : List Command) :
    (pool r (Scratch.fresh base) cs).length = (histories cs).length ∧
    ∀ i us, (histories cs)[i]? = some us → ∃ l, (pool r (Scratch.fresh base) cs)[i]? = some l ∧
      l.base = base ∧ (∀ u : Use, u.answer r l = u.answer r (Use.afterAll r base us)) ∧
      (∀ u : Use, sheet? base u.character = none → u.answer r l = u.refusal) ∧
      ∀ j u, j ≠ i → (pool r (Scratch.fresh base) (cs ++ [.use j u]))[i]? = some l := by
  refine ⟨?_, fun i us hus => ⟨Use.afterAll r (Scratch.fresh base) us, ?_, ?_, fun u => ?_,
    fun u hu => ?_, fun j u hj => ?_⟩⟩
  · rw [pool_eq, List.length_map]
  · rw [pool_eq, List.getElem?_map, hus]
    rfl
  · exact Use.base_afterAll _ us
  · exact Use.answer_alike (Use.afterAll_alike (alike_fresh base) us) u
  · refine Use.answer_of_none (Option.not_isSome_iff_eq_none.mp ?_)
    rw [Use.isSome_sheet?_afterAll, alike_fresh base, hu]
    exact Bool.false_ne_true
  · rw [getElem?_pool_use r _ cs hj, pool_eq, List.getElem?_map, hus]
    rfl

/-- There are moods. -/
def moods : Registry :=
  (Registry.addCategory .empty (.numeric "Mood" ["happy"] 0 10 5)).toOption.getD .empty

/-- Bob is there, and nothing has been said about him. -/
def bobAlone : SortedMap String Sheet := SortedMap.ofList [("Bob", .empty)]

/-- Someone is cheered up a little. -/
def cheerUp (name : String) (value : Int64) : Use := .enact ⟨⟨name, "Mood", "happy"⟩, .add, .int value⟩

/-- Two layers, in which Bob is cheered up more and less. -/
def guesses : List Command := [.fork 0, .use 0 (cheerUp "Bob" 1), .use 1 (cheerUp "Bob" 3)]

/-- Each layer knows its own Bob, and there is no Ann to be cheered up. -/
theorem layers_like_copies_guesses : LawfulWorld (SortedMap String Sheet) ∧
    histories guesses = [[cheerUp "Bob" 1], [cheerUp "Bob" 3]] ∧
    ∃ l₀ l₁, (pool moods (Scratch.fresh bobAlone) guesses)[0]? = some l₀ ∧
      (pool moods (Scratch.fresh bobAlone) guesses)[1]? = some l₁ ∧ l₀.base = bobAlone ∧
      (Use.resolve ⟨"Bob", "Mood", "happy"⟩).answer moods l₀ = .value (.ok (.int 6)) ∧
      (Use.resolve ⟨"Bob", "Mood", "happy"⟩).answer moods l₁ = .value (.ok (.int 8)) ∧
      (cheerUp "Ann" 1).answer moods l₁ = .change (.error (.unknownCharacter "Ann")) := by
  obtain ⟨_, hlayers⟩ := layers_like_copies moods bobAlone guesses
  obtain ⟨l₀, hl₀, hbase, hanswers₀, _, _⟩ := hlayers 0 [cheerUp "Bob" 1] rfl
  obtain ⟨l₁, hl₁, _, hanswers₁, hunknown, _⟩ := hlayers 1 [cheerUp "Bob" 3] rfl
  refine ⟨inferInstance, rfl, l₀, l₁, hl₀, hl₁, hbase, ?_, ?_, hunknown (cheerUp "Ann" 1) rfl⟩
  · rw [hanswers₀]
    rfl
  · rw [hanswers₁]
    rfl

end Narrative

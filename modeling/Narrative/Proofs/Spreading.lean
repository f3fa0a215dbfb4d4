import Narrative.Proofs.Validation

/-!
# `Proofs.Spreading` — which actions a label reaches

A label descends depth first and stops at every action that has one already, also at those it has
labelled itself a moment ago by another way. What it does to a plot can still be said in terms of
the plot before: it reaches what lies below through actions that were all unlabelled **then**.

That an action is passed over because it has just been labelled does no harm, for what has been
labelled has been followed: the links of a newly labelled action lead to labelled actions only. With
that, `Spreads` is closed under doing one thing after the other, and under going down to the
children of an action.

Nothing but the labels keeps the walk from going round in circles, and they are written while it is
under way. `Descent` is the walk without any bound, as a relation with one rule for each thing that
can be met. A plot has exactly one descent: one at most, since the rules leave no choice, and one at
least, since every step down has labelled one action more. It is the one that `labelBelow` goes,
whose depth is therefore never used up.

## Contents
- **Labels.** `labelOf` and `Unlabelled`; `Passes`, `Below` and `Gets` say which way a label goes.
- **Spreading.** `Spreads`, with `Spreads.trans` and `Spreads.enter`; `Spreads.labels` reads the
  labels off it.
- **The walk.** `Descent`, with `Descent.unique` and `Descent.spreads`.
- **The depth.** `unlabelledUids`, `descent_labelBelow` and `descent_spreadLabel`.
- **The result.** `labelOf_spreadLabel`, and the main result `spreadLabel_descends`.
-/

namespace Narrative
open Relation

namespace Plot

variable {p q q' : Plot} {label : String} {uid n : Uid} {starts starts' : List Uid}

/-! ## Labels -/

/-- The label of an action. -/
def labelOf (p : Plot) (uid : Uid) : Option String := (p.action? uid).bind (·.label)

/-- The action is there and has no label. -/
def Unlabelled (p : Plot) (uid : Uid) : Prop := p.mapped uid = true ∧ p.labelOf uid = none

/-- A label **passes** from an action to an unlabelled one that it leads to. -/
def Passes (p : Plot) (a b : Uid) : Prop := p.Leads a b ∧ p.Unlabelled b

/-- `b` lies **below** `a`: a way from `a` leads there, on which all actions after `a` are unlabelled. -/
def Below (p : Plot) (a b : Uid) : Prop := TransGen p.Passes a b

/-- Who **gets** a label that is given to `uid`: the action itself and those below, if they have none. -/
def Gets (p : Plot) (uid n : Uid) : Prop := p.Unlabelled n ∧ (n = uid ∨ p.Below uid n)

/-- From an unlabelled start a label passes to `n`. -/
def Touches (p : Plot) (start n : Uid) : Prop := p.Unlabelled start ∧ ReflTransGen p.Passes start n

theorem labelOf_of_some {a : Action} (ha : p.action? uid = some a) : p.labelOf uid = a.label := by
  unfold labelOf
  rw [ha]
  rfl

theorem unlabelled_iff : p.Unlabelled uid ↔ ∃ a, p.action? uid = some a ∧ a.label = none := by
  constructor
  · rintro ⟨hmapped, hnone⟩
    obtain ⟨a, ha⟩ := mapped_iff.mp hmapped
    exact ⟨a, ha, (labelOf_of_some ha).symm.trans hnone⟩
  · rintro ⟨a, ha, hnone⟩
    exact ⟨mapped_iff.mpr ⟨a, ha⟩, (labelOf_of_some ha).trans hnone⟩

theorem Touches.unlabelled {start : Uid} (h : p.Touches start n) : p.Unlabelled n := by
  obtain ⟨hstart, hway⟩ := h
  cases hway with
  | refl => exact hstart
  | tail _ hlast => exact hlast.2

theorem Below.unlabelled (h : p.Below uid n) : p.Unlabelled n := by
  obtain ⟨_, _, hlast⟩ := TransGen.tail'_iff.mp h
  exact hlast.2

/-- The plot with a label given to one action. -/
def withLabel (p : Plot) (uid : Uid) (label : String) : Plot := p.updateAction uid (labelIfNone · label)

theorem labelOf_withLabel (h : p.mapped uid = true) (label : String) (n : Uid) :
    (p.withLabel uid label).labelOf n = if n = uid then (p.labelOf uid).or (some label)
      else p.labelOf n := by
  obtain ⟨a, ha⟩ := mapped_iff.mp h
  unfold labelOf withLabel
  rw [action?_updateAction]
  split
  · rw [ha]; rfl
  · rfl

/-- An action that has a label is left as it is. -/
theorem withLabel_of_labelled (h : ¬p.Unlabelled uid) (label : String) : p.withLabel uid label = p := by
  have hactions : p.actions.modify uid (labelIfNone · label) = p.actions := by
    refine SortedMap.ext fun k => ?_
    rw [SortedMap.get?_modify]
    split
    · next hk =>
      rw [hk]
      cases ha : p.actions.get? uid with
      | none => rfl
      | some a =>
        have hlabel : a.label ≠ none := fun hnone => h (unlabelled_iff.mpr ⟨a, ha, hnone⟩)
        obtain ⟨l, hl⟩ := Option.ne_none_iff_exists'.mp hlabel
        show some { a with label := a.label.or (some label) } = some a
        rw [hl, Option.some_or, ← hl]
    · rfl
  unfold withLabel updateAction
  rw [hactions]

theorem relabelled_withLabel (p : Plot) (uid : Uid) (label : String) :
    Relabelled p (p.withLabel uid label) :=
  relabelled_labelIfNone p uid label

/-- One action less is unlabelled, and all others stay so. -/
theorem unlabelled_withLabel (huid : p.Unlabelled uid) (label : String) :
    (p.withLabel uid label).Unlabelled n ↔ p.Unlabelled n ∧ n ≠ uid := by
  unfold Unlabelled
  rw [(relabelled_withLabel p uid label).sameShape.mapped, labelOf_withLabel huid.1, huid.2,
    Option.none_or]
  by_cases hn : n = uid
  · rw [if_pos hn]
    exact ⟨fun h => (nomatch h.2), fun h => absurd hn h.2⟩
  · rw [if_neg hn]
    exact ⟨fun h => ⟨h, hn⟩, fun h => h.1⟩

/-! ## Spreading -/

/-- From `p` a label has **spread** to `q` from the starts on. -/
structure Spreads (label : String) (p : Plot) (starts : List Uid) (q : Plot) : Prop where
  relabelled : Relabelled p q
  kept : ∀ n, p.labelOf n ≠ none → q.labelOf n = p.labelOf n
  /-- Whoever is labelled now has that label, and it passed there in `p`. -/
  sound : ∀ n, p.labelOf n = none → q.labelOf n ≠ none →
    q.labelOf n = some label ∧ ∃ start ∈ starts, p.Touches start n
  /-- Whoever is labelled now has been followed. -/
  followed : ∀ a b, p.labelOf a = none → q.labelOf a ≠ none → p.Leads a b → ¬q.Unlabelled b
  started : ∀ start ∈ starts, ¬q.Unlabelled start

theorem spreads_self (label : String) (h : ∀ start ∈ starts, ¬p.Unlabelled start) :
    p.Spreads label starts p where
  relabelled := relabelled_refl p
  kept := fun _ _ => rfl
  sound := fun _ hnone hsome => absurd hnone hsome
  followed := fun _ _ hnone hsome => absurd hnone hsome
  started := h

/-- Where a label does not pass, nothing is to be done. -/
theorem spreads_stop (h : ¬p.Unlabelled uid) : p.Spreads label [uid] p :=
  spreads_self label fun start hstart => by rw [List.mem_singleton.mp hstart]; exact h

theorem Spreads.unlabelled (h : p.Spreads label starts q) (hn : q.Unlabelled n) : p.Unlabelled n := by
  refine ⟨(h.relabelled.sameShape.mapped n).symm.trans hn.1, Decidable.byContradiction fun hsome => ?_⟩
  exact hsome ((h.kept n hsome).symm.trans hn.2)

theorem Spreads.passes (h : p.Spreads label starts q) {a b : Uid} (hab : q.Passes a b) : p.Passes a b :=
  ⟨h.relabelled.sameShape.leads ▸ hab.1, h.unlabelled hab.2⟩

theorem Spreads.touches (h : p.Spreads label starts q) {start : Uid} (hn : q.Touches start n) :
    p.Touches start n :=
  ⟨h.unlabelled hn.1, ReflTransGen.mono (fun _ _ => h.passes) _ _ hn.2⟩

/-- **What spreads in two runs spreads in one.** -/
theorem Spreads.trans (h : p.Spreads label starts q) (h' : q.Spreads label starts' q') :
    p.Spreads label (starts ++ starts') q' where
  relabelled := h.relabelled.trans h'.relabelled
  kept := by
    intro n hn
    have hq := h.kept n hn
    exact (h'.kept n (hq ▸ hn)).trans hq
  sound := by
    intro n hnone hsome
    by_cases hq : q.labelOf n = none
    · obtain ⟨hlabel, start, hstart, htouch⟩ := h'.sound n hq hsome
      exact ⟨hlabel, start, List.mem_append_right _ hstart, h.touches htouch⟩
    · obtain ⟨hlabel, start, hstart, htouch⟩ := h.sound n hnone hq
      exact ⟨(h'.kept n hq).trans hlabel, start, List.mem_append_left _ hstart, htouch⟩
  followed := by
    intro a b hnone hsome hab
    by_cases hq : q.labelOf a = none
    · exact h'.followed a b hq hsome (h.relabelled.sameShape.leads ▸ hab)
    · exact fun hb => h.followed a b hnone hq hab (h'.unlabelled hb)
  started := by
    intro start hstart
    rcases List.mem_append.mp hstart with hstart | hstart
    · exact fun hb => h.started start hstart (h'.unlabelled hb)
    · exact h'.started start hstart

/-- **From an unlabelled action a label spreads through its children**, once the action has the
label itself. -/
theorem Spreads.enter (huid : p.Unlabelled uid)
    (h : (p.withLabel uid label).Spreads label (p.childrenOf uid) q) :
    p.Spreads label [uid] q := by
  have hshape := (relabelled_withLabel p uid label).sameShape
  have hlabel : (p.withLabel uid label).labelOf uid = some label := by
    rw [labelOf_withLabel huid.1, if_pos rfl, huid.2, Option.none_or]
  have hother : ∀ {n}, n ≠ uid → (p.withLabel uid label).labelOf n = p.labelOf n := fun hne => by
    rw [labelOf_withLabel huid.1, if_neg hne]
  have hentered : q.labelOf uid = some label :=
    (h.kept uid (by rw [hlabel]; exact Option.some_ne_none label)).trans hlabel
  have hless : ∀ {n}, (p.withLabel uid label).Unlabelled n → p.Unlabelled n := fun hn =>
    ((unlabelled_withLabel huid label).mp hn).1
  refine ⟨(relabelled_withLabel p uid label).trans h.relabelled, fun n hn => ?_, fun n hnone hsome => ?_,
    fun a b hnone hsome hab => ?_, fun start hstart => ?_⟩
  · have hne : n ≠ uid := fun heq => hn (heq ▸ huid.2)
    rw [h.kept n (by rw [hother hne]; exact hn), hother hne]
  · by_cases hne : n = uid
    · subst hne
      exact ⟨hentered, n, List.mem_singleton_self n, huid, .refl⟩
    · -- the way from a child is one from `uid`
      obtain ⟨hn, child, hchild, hstart, hway⟩ := h.sound n ((hother hne).trans hnone) hsome
      refine ⟨hn, uid, List.mem_singleton_self uid, huid, .head ⟨hchild, hless hstart⟩ ?_⟩
      exact ReflTransGen.mono (fun _ _ hab => ⟨hshape.leads ▸ hab.1, hless hab.2⟩) _ _ hway
  · by_cases hne : a = uid
    · subst hne
      exact h.started b hab
    · exact h.followed a b ((hother hne).trans hnone) hsome (hshape.leads ▸ hab)
  · rw [List.mem_singleton.mp hstart]
    exact fun hn => Option.some_ne_none label (hentered.symm.trans hn.2)

/-- What a label can reach it has reached. -/
theorem Spreads.complete (h : p.Spreads label starts q) {start : Uid} (hstart : start ∈ starts)
    (hn : p.Touches start n) : q.labelOf n ≠ none := by
  obtain ⟨hfree, hway⟩ := hn
  have hmapped : ∀ {n}, p.Unlabelled n → q.mapped n = true :=
    fun hn => (h.relabelled.sameShape.mapped _).trans hn.1
  induction hway with
  | refl => exact fun hnone => h.started start hstart ⟨hmapped hfree, hnone⟩
  | tail hway hlast ih =>
    have hbefore := (Touches.unlabelled ⟨hfree, hway⟩).2
    exact fun hnone => h.followed _ _ hbefore ih hlast.1 ⟨hmapped hlast.2, hnone⟩

/-- **Where a label has spread to, and that it has changed nothing else.** -/
theorem Spreads.labels (h : p.Spreads label starts q) (n : Uid) :
    ((∃ start ∈ starts, p.Touches start n) → q.labelOf n = some label) ∧
    ((¬∃ start ∈ starts, p.Touches start n) → q.labelOf n = p.labelOf n) := by
  constructor
  · rintro ⟨start, hstart, htouch⟩
    exact (h.sound n htouch.unlabelled.2 (h.complete hstart htouch)).1
  · intro hnot
    by_cases hnone : p.labelOf n = none
    · rw [hnone]
      exact Decidable.byContradiction fun hsome => hnot (h.sound n hnone hsome).2
    · exact h.kept n hnone

/-! ## The walk -/

/-- The **descent** of a label from one plot to another: it goes to some uids, one after the other,
and nothing bounds it. It stops at a uid that is not mapped or has a label. Any other action it
labels, and descends to its children before it goes on. -/
inductive Descent (label : String) : Plot → List Uid → Plot → Prop where
  | done (p : Plot) : Descent label p [] p
  | stop {p q : Plot} {uid : Uid} {rest : List Uid} (huid : ¬p.Unlabelled uid)
    (hrest : Descent label p rest q) :
    Descent label p (uid :: rest) q
  | enter {p below q : Plot} {uid : Uid} {rest : List Uid} (huid : p.Unlabelled uid)
    (hbelow : Descent label (p.withLabel uid label) (p.childrenOf uid) below)
      (hrest : Descent label below rest q) :
    Descent label p (uid :: rest) q

/-- **A descent has one end at most.** -/
theorem Descent.unique (h : Descent label p starts q) (h' : Descent label p starts q') : q' = q := by
  induction h generalizing q' with
  | done =>
    cases h'
    rfl
  | stop huid _ ih =>
    cases h' with
    | stop _ hrest => exact ih hrest
    | enter huid' => exact absurd huid' huid
  | enter huid _ _ ihbelow ihrest =>
    cases h' with
    | stop huid' => exact absurd huid huid'
    | enter _ hbelow hrest =>
      obtain rfl := ihbelow hbelow
      exact ihrest hrest

theorem Descent.append (h : Descent label p starts q) (h' : Descent label q starts' q') :
    Descent label p (starts ++ starts') q' := by
  induction h with
  | done => exact h'
  | stop huid _ ih => exact .stop huid (ih h')
  | enter huid hbelow _ _ ih => exact .enter huid hbelow (ih h')

/-- **In a descent a label spreads as far as it can.** -/
theorem Descent.spreads (h : Descent label p starts q) : p.Spreads label starts q := by
  induction h with
  | done p => exact spreads_self label fun _ hstart => absurd hstart List.not_mem_nil
  | stop huid _ ih => exact (spreads_stop huid).trans ih
  | enter huid _ _ ihbelow ihrest => exact (Spreads.enter huid ihbelow).trans ihrest

/-! ## The depth -/

/-- The uids of unlabelled actions. -/
def unlabelledUids (p : Plot) : Finset Uid :=
  p.actions.keys.toFinset.filter fun uid => p.labelOf uid = none

theorem mem_unlabelledUids : uid ∈ p.unlabelledUids ↔ p.Unlabelled uid := by
  unfold unlabelledUids
  rw [Finset.mem_filter, List.mem_toFinset, SortedMap.mem_keys]
  rfl

theorem card_unlabelledUids_le (p : Plot) : p.unlabelledUids.card ≤ p.size :=
  calc p.unlabelledUids.card
      ≤ p.actions.keys.toFinset.card := Finset.card_filter_le _ _
    _ ≤ p.actions.keys.length := List.toFinset_card_le _
    _ = p.size := List.length_map _

theorem Spreads.card_le (h : p.Spreads label starts q) : q.unlabelledUids.card ≤ p.unlabelledUids.card :=
  Finset.card_le_card fun _ hn => mem_unlabelledUids.mpr (h.unlabelled (mem_unlabelledUids.mp hn))

/-- An action that gets a label leaves one less without. -/
theorem card_withLabel_lt (huid : p.Unlabelled uid) (label : String) :
    (p.withLabel uid label).unlabelledUids.card < p.unlabelledUids.card := by
  have herase : (p.withLabel uid label).unlabelledUids = p.unlabelledUids.erase uid := by
    ext n
    rw [Finset.mem_erase, mem_unlabelledUids, mem_unlabelledUids, unlabelled_withLabel huid, and_comm]
  rw [herase]
  exact Finset.card_erase_lt_of_mem (mem_unlabelledUids.mpr huid)

theorem labelBelow_of_labelled (huid : ¬p.Unlabelled uid) (depth : Nat) :
    labelBelow label depth p uid = p := by
  cases depth with
  | zero => rfl
  | succ depth =>
    rw [labelBelow]
    cases ha : p.action? uid with
    | none => rfl
    | some a =>
      have hlabel : a.label ≠ none := fun hnone => huid (unlabelled_iff.mpr ⟨a, ha, hnone⟩)
      exact if_pos (Option.isSome_iff_ne_none.mpr hlabel)

theorem labelBelow_of_unlabelled (huid : p.Unlabelled uid) (depth : Nat) :
    labelBelow label (depth + 1) p uid =
    (p.childrenOf uid).foldl (labelBelow label depth) (p.withLabel uid label) := by
  obtain ⟨a, ha, hnone⟩ := unlabelled_iff.mp huid
  rw [labelBelow, ha, childrenOf_of_some ha]
  exact if_neg (Option.not_isSome_iff_eq_none.mpr hnone)

/-- Where each step is a descent, so is a run over several uids, also after the label has descended
to others. -/
theorem descent_foldl {depth : Nat} {f : Plot → Uid → Plot}
    (hf : ∀ {p : Plot}, p.unlabelledUids.card ≤ depth → ∀ uid, Descent label p [uid] (f p uid))
    (hdepth : p.unlabelledUids.card ≤ depth) : Descent label p starts (starts.foldl f p) := by
  induction starts generalizing p with
  | nil => exact .done p
  | cons start starts ih =>
    have hone := hf hdepth start
    exact hone.append (ih (hone.spreads.card_le.trans hdepth))

/-- **A depth that is no less than the number of unlabelled actions is not felt**: the label
descends as it does without. -/
theorem descent_labelBelow {depth : Nat} (hdepth : p.unlabelledUids.card ≤ depth) (uid : Uid) :
    Descent label p [uid] (labelBelow label depth p uid) := by
  induction depth generalizing p uid with
  | zero =>
    have hnone := Finset.card_eq_zero.mp (Nat.le_zero.mp hdepth)
    exact .stop (fun huid => absurd (mem_unlabelledUids.mpr huid) (hnone ▸ Finset.notMem_empty uid))
      (.done p)
  | succ depth ih =>
    by_cases huid : p.Unlabelled uid
    · have hless : (p.withLabel uid label).unlabelledUids.card ≤ depth :=
        Nat.le_of_lt_succ (Nat.lt_of_lt_of_le (card_withLabel_lt huid label) hdepth)
      rw [labelBelow_of_unlabelled huid]
      exact .enter huid (descent_foldl ih hless) (.done _)
    · rw [labelBelow_of_labelled huid]
      exact .stop huid (.done p)

theorem spreadLabel_eq (p : Plot) (uid : Uid) (label : String) : p.spreadLabel uid label =
    if p.mapped uid = true then .ok ((p.childrenOf uid).foldl (labelBelow label p.size)
      (p.withLabel uid label))
    else .error (.unmappedAction uid) := by
  unfold spreadLabel mapped childrenOf action?
  cases ha : p.actions.get? uid with
  | none => simp [SortedMap.contains, ha]
  | some a => simp [SortedMap.contains, ha, withLabel]

theorem card_withLabel_le_size (p : Plot) (uid : Uid) (label : String) :
    (p.withLabel uid label).unlabelledUids.card ≤ p.size := by
  by_cases huid : p.Unlabelled uid
  · exact (card_withLabel_lt huid label).le.trans p.card_unlabelledUids_le
  · rw [withLabel_of_labelled huid]
    exact p.card_unlabelledUids_le

/-- **A label that is given to an action descends to its children.** -/
theorem descent_spreadLabel (h : p.spreadLabel uid label = .ok q) :
    Descent label (p.withLabel uid label) (p.childrenOf uid) q := by
  rw [spreadLabel_eq] at h
  split at h
  · cases h
    exact descent_foldl descent_labelBelow (card_withLabel_le_size p uid label)
  · cases h

/-! ## The result -/

/-- From the children of an action a label touches what lies below the action. -/
theorem below_iff_touches : p.Below uid n ↔ ∃ child ∈ p.childrenOf uid, p.Touches child n := by
  unfold Below
  rw [TransGen.head'_iff]
  exact ⟨fun ⟨child, ⟨hchild, hfree⟩, hway⟩ => ⟨child, hchild, hfree, hway⟩,
    fun ⟨child, hchild, hfree, hway⟩ => ⟨child, ⟨hchild, hfree⟩, hway⟩⟩

theorem gets_iff_touches (huid : p.Unlabelled uid) : p.Gets uid n ↔ p.Touches uid n := by
  unfold Gets Touches Below
  rw [reflTransGen_iff_eq_or_transGen]
  constructor
  · rintro ⟨_, hway⟩
    exact ⟨huid, hway⟩
  · rintro ⟨_, hway⟩
    refine ⟨?_, hway⟩
    rcases hway with rfl | hbelow
    · exact huid
    · exact Below.unlabelled hbelow

theorem gets_iff_below (huid : ¬p.Unlabelled uid) : p.Gets uid n ↔ p.Below uid n := by
  constructor
  · rintro ⟨hn, rfl | hbelow⟩
    · exact absurd hn huid
    · exact hbelow
  · exact fun hbelow => ⟨hbelow.unlabelled, .inr hbelow⟩

/-- **A label goes to the unlabelled actions below an action, to all of them and to no others**,
whatever the shape of the plot. -/
theorem labelOf_spreadLabel (h : p.spreadLabel uid label = .ok q) (n : Uid) :
    (p.Gets uid n → q.labelOf n = some label) ∧ (¬p.Gets uid n → q.labelOf n = p.labelOf n) := by
  have hspreads : (p.withLabel uid label).Spreads label (p.childrenOf uid) q :=
    (descent_spreadLabel h).spreads
  by_cases huid : p.Unlabelled uid
  · have hlabels := (hspreads.enter huid).labels n
    simp only [List.mem_singleton, exists_eq_left] at hlabels
    rw [gets_iff_touches huid]
    exact hlabels
  · rw [withLabel_of_labelled huid] at hspreads
    rw [gets_iff_below huid, below_iff_touches]
    exact hspreads.labels n

/-- Between plots that differ in labels only, an action is the same as before up to the label that
it has now. -/
theorem Relabelled.action?_eq (h : Relabelled p q) (n : Uid) :
    q.action? n = (p.action? n).map fun a => { a with label := q.labelOf n } := by
  have hsame := h.actions n
  cases ha : p.action? n with
  | none =>
    rw [ha] at hsame
    exact Option.map_eq_none_iff.mp hsame
  | some a =>
    rw [ha] at hsame
    obtain ⟨b, hb, hab⟩ := Option.map_eq_some_iff.mp hsame
    rw [hb, labelOf_of_some hb]
    calc some b = some { b.unlabelled with label := b.label } := rfl
      _ = some { a.unlabelled with label := b.label } := by rw [hab]

/-- **A label comes to an end on every plot, and goes exactly to those who get it.** The plot may go
round in circles, lead to uids that are not mapped, or never have been validated. If the uid is
mapped, the descent from it without any bound has an end, and only one, which is the plot that comes
of it: there, those who get the label by the plot before have it and are otherwise as they were, and
all other actions, the first actions and the mark are the same. If the uid is not mapped, this is
reported and nothing changes. -/
theorem spreadLabel_descends (p : Plot) (uid : Uid) (label : String) :
    (p.mapped uid = true → ∃ q, p.spreadLabel uid label = .ok q ∧
      (Edit.spreadLabel uid label).after p = q ∧
      (∀ q', Descent label (p.withLabel uid label) (p.childrenOf uid) q' ↔ q' = q) ∧
      (∀ n, p.Gets uid n → q.action? n = (p.action? n).map fun a => { a with label := some label }) ∧
      (∀ n, ¬p.Gets uid n → q.action? n = p.action? n) ∧
      q.roots = p.roots ∧ q.validated = p.validated) ∧
    (p.mapped uid = false → p.spreadLabel uid label = .error (.unmappedAction uid) ∧
      (Edit.spreadLabel uid label).after p = p) := by
  constructor
  · intro hmapped
    obtain ⟨q, hq⟩ : ∃ q, p.spreadLabel uid label = .ok q := by
      rw [spreadLabel_eq, if_pos hmapped]
      exact ⟨_, rfl⟩
    have hdescent := descent_spreadLabel hq
    have hrelabelled := relabelled_spreadLabel hq
    refine ⟨q, hq, ?_, fun q' => ⟨hdescent.unique, fun heq => heq ▸ hdescent⟩, ?_, ?_, hrelabelled.roots,
      hrelabelled.validated⟩
    · rw [Edit.after, hq]
      rfl
    · intro n hn
      rw [hrelabelled.action?_eq, (labelOf_spreadLabel hq n).1 hn]
    · intro n hn
      rw [hrelabelled.action?_eq, (labelOf_spreadLabel hq n).2 hn]
      cases ha : p.action? n with
      | none => rfl
      | some a =>
        rw [labelOf_of_some ha]
        rfl
  · intro hunmapped
    have hfail : p.spreadLabel uid label = .error (.unmappedAction uid) := by
      rw [spreadLabel_eq, if_neg (Bool.eq_false_iff.mp hunmapped)]
    refine ⟨hfail, ?_⟩
    rw [Edit.after, hfail]
    rfl

/-- Bob calls, and an echo answers itself and then him, or nobody; or else he leaves, and comes back. -/
def calling : Plot where
  roots := [1]
  actions := .ofList [
    (1, { Action.new 1 "Call" with children := [2, 4] }),
      (2, { Action.new 2 "Echo" with children := [2, 3] }),
    (3, { Action.new 3 "Listen" with children := [1, 9] }),
    (4, { Action.new 4 "Leave" with label := some "walk", children := [5] }), (5, .new 5 "Return")]
  validated := false

/-- Though the echo goes round in two circles and leads to a uid that is not mapped, a label that is
given to the call comes to an end. It goes to what Bob hears, and not past his leaving, which has
one. -/
theorem spreadLabel_descends_calling :
    calling.isAcyclic = false ∧ calling.mapped 1 = true ∧ calling.mapped 9 = false ∧
      (∃ q, calling.spreadLabel 1 "talk" = .ok q ∧ Descent "talk" (calling.withLabel 1 "talk") [2, 4] q ∧
        q.labelOf 1 = some "talk" ∧ q.labelOf 3 = some "talk" ∧ q.labelOf 4 = some "walk" ∧
        q.labelOf 5 = none) ∧
      (Edit.spreadLabel 9 "talk").after calling = calling := by
  have hmapped : calling.mapped 1 = true := by decide
  have hunmapped : calling.mapped 9 = false := by decide
  obtain ⟨q, hq, _, hdescent, hgets, hother, _⟩ := (spreadLabel_descends calling 1 "talk").1 hmapped
  obtain ⟨_, hsame⟩ := (spreadLabel_descends calling 9 "talk").2 hunmapped
  have hcall : calling.Unlabelled 1 := ⟨hmapped, rfl⟩
  have hecho : calling.Passes 1 2 := ⟨List.mem_cons_self, by decide, rfl⟩
  have hlisten : calling.Passes 2 3 := ⟨List.mem_cons_of_mem _ List.mem_cons_self, by decide, rfl⟩
  have hleave : ¬calling.Unlabelled 4 := fun h => Option.some_ne_none "walk" h.2
  have hreturn : ¬calling.Below 1 5 := by
    -- the only link to the return is the one from the leave
    have honly : ∀ e ∈ calling.actions.entries, 5 ∈ e.2.children → e.1 = 4 := by decide
    intro hbelow
    obtain ⟨n, hway, hlink, _⟩ := TransGen.tail'_iff.mp hbelow
    obtain ⟨a, ha⟩ := mapped_iff.mp hlink.mapped
    obtain rfl := honly (n, a) (SortedMap.get?_eq_some_iff.mp ha) (childrenOf_of_some ha ▸ hlink)
    exact hleave (Touches.unlabelled ⟨hcall, hway⟩)
  refine ⟨by decide, hmapped, hunmapped, ⟨q, hq, (hdescent q).mpr rfl, ?_, ?_, ?_, ?_⟩, hsame⟩
  · rw [labelOf, hgets 1 ⟨hcall, .inl rfl⟩]
    rfl
  · rw [labelOf, hgets 3 ⟨hlisten.2, .inr (.tail (.single hecho) hlisten)⟩]
    rfl
  · rw [labelOf, hother 4 fun h => hleave h.1]
    rfl
  · rw [labelOf, hother 5 fun h => hreturn (h.2.resolve_left (by decide))]
    rfl

end Plot
end Narrative

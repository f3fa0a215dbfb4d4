import Mathlib.Data.List.Dedup
import Mathlib.Data.List.MinMax
import Mathlib.Data.List.Perm.Subperm
import Narrative.Discovery

/-!
# `Proofs.Selection` — the best candidates, whatever the shuffle

Candidates are shuffled, sorted by score, and taken from the front, no label twice. The shuffle is
there to order equal scores at random, and which paths are offered does depend on it. Their scores
do not: they are the least ones that can be had.

The limit is only a place to stop. What is taken without one, the **offers**, has the chosen
candidates as its front (`choose_eq_take`), so all else is shown of the offers. They hold every
candidate without a label, and of each label the first in sorted order, which is one of least score.
Scores that are equal in the total order are equal bit by bit, so sorting the scores of the offers
leaves no choice (`eq_sorted`).

## Contents
- **Shuffles.** `shuffle_perm`.
- **The total order.** `totalKey_injective`, `Binary32.sorted`.
- **Contenders.** `labels`, `leastScore?` and `contenders` say what is to be offered.
- **Offers.** `offers`, their labels and their scores.
- The main result `selection_optimal`.
-/

namespace Narrative

/-! ## Shuffles -/

namespace Source

variable {α : Type}

theorem swapIfInBounds_perm (xs : Array α) (i j : Nat) : (xs.swapIfInBounds i j).Perm xs := by
  unfold Array.swapIfInBounds
  split
  · split
    · exact Array.swap_perm _ _
    · exact .refl _
  · exact .refl _

theorem shuffleFrom_perm (i : Nat) (xs : Array α) (s : Source) : (shuffleFrom i xs s).1.Perm xs := by
  induction i generalizing xs s with
  | zero => exact .refl _
  | succ i ih =>
    rw [shuffleFrom]
    exact (ih _ _).trans (swapIfInBounds_perm _ _ _)

/-- A shuffle puts a list into another order. -/
theorem shuffle_perm (s : Source) (xs : List α) : (s.shuffle xs).1.Perm xs :=
  Array.perm_iff_toList_perm.mp (shuffleFrom_perm _ xs.toArray s)

end Source

/-! ## The total order -/

/-- Sorting by a rank puts the ranks into ascending order. -/
theorem mergeSort_ascending {α : Type} (key : α → Nat) (l : List α) :
    (l.mergeSort fun a b => key a ≤ key b).Pairwise fun a b => key a ≤ key b := by
  have htrans : ∀ a b c : α, decide (key a ≤ key b) = true → decide (key b ≤ key c) = true →
      decide (key a ≤ key c) = true := by
    intro a b c
    simp only [decide_eq_true_eq]
    exact Nat.le_trans
  have htotal : ∀ a b : α, (decide (key a ≤ key b) || decide (key b ≤ key a)) = true := by
    intro a b
    simpa using Nat.le_total (key a) (key b)
  exact (List.pairwise_mergeSort htrans htotal l).imp of_decide_eq_true

namespace Binary32

/-- Values of one rank have the same bits. -/
theorem totalKey_injective : Function.Injective totalKey := by
  rintro ⟨a⟩ ⟨b⟩ h
  have ha : a.toNat < 4294967296 := a.toNat_lt
  have hb : b.toNat < 4294967296 := b.toNat_lt
  simp only [totalKey, isNegative, decide_eq_true_eq, ge_iff_le, UInt32.le_iff_toNat_le,
    UInt32.reduceToNat] at h
  have hbits : a.toNat = b.toNat := by
    split at h <;> split at h <;> omega
  rw [UInt32.toNat_inj.mp hbits]

/-- Values in ascending order. -/
def sorted (xs : List Binary32) : List Binary32 := xs.mergeSort fun a b => a.totalKey ≤ b.totalKey

/-- There is one way only to put values into ascending order. -/
theorem eq_sorted {xs ys : List Binary32} (h : xs.Perm ys)
    (hxs : xs.Pairwise fun a b => a.totalKey ≤ b.totalKey) :
    xs = sorted ys := by
  refine List.Perm.eq_of_pairwise ?_ hxs (mergeSort_ascending totalKey ys)
    (h.trans (List.mergeSort_perm _ _).symm)
  exact fun a b _ _ hab hba => totalKey_injective (Nat.le_antisymm hab hba)

end Binary32

namespace Candidate

variable {cs shuffled : List Candidate} {c : Candidate} {taken : List String} {label : String}

/-! ## Contenders -/

/-- The labels that candidates carry, each of them once. -/
def labels (cs : List Candidate) : List String := (cs.filterMap (·.label)).dedup

/-- The least score of a label, if some candidate carries it. -/
def leastScore? (cs : List Candidate) (label : String) : Option Binary32 :=
  ((cs.filter (·.label = some label)).map (·.score)).argmin Binary32.totalKey

/-- The scores to be had: that of every candidate without a label, and the least one of each label. -/
def contenders (cs : List Candidate) : List Binary32 :=
  (cs.filter (·.label.isNone)).map (·.score) ++ (labels cs).filterMap (leastScore? cs)

theorem leastScore?_eq (hc : c ∈ cs) (hlabel : c.label = some label)
    (hleast : ∀ d ∈ cs, d.label = some label → c.score.totalKey ≤ d.score.totalKey) :
    leastScore? cs label = some c.score := by
  have hmem : ∀ {x : Binary32}, x ∈ (cs.filter (·.label = some label)).map (·.score) ↔
      ∃ d ∈ cs, d.label = some label ∧ d.score = x := by
    intro x
    simp only [List.mem_map, List.mem_filter, decide_eq_true_eq, and_assoc]
  have hscore : c.score ∈ (cs.filter (·.label = some label)).map (·.score) :=
    hmem.mpr ⟨c, hc, hlabel, rfl⟩
  cases hmin : leastScore? cs label with
  | none =>
    rw [List.argmin_eq_none.mp hmin] at hscore
    exact absurd hscore List.not_mem_nil
  | some x =>
    -- `x` is the score of a candidate of that label, and both it and `c.score` are least
    obtain ⟨d, hd, hdlabel, rfl⟩ := hmem.mp (List.argmin_mem hmin)
    have hle : d.score.totalKey ≤ c.score.totalKey := List.le_of_mem_argmin hscore hmin
    exact congrArg some (Binary32.totalKey_injective (Nat.le_antisymm hle (hleast d hd hdlabel)))

/-! ## Offers -/

/-- What is taken from the front without a limit: no label twice, and none that is taken already. -/
def offers : (taken : List String) → List Candidate → List Candidate
  | _, [] => []
  | taken, c :: cs =>
    match c.label with
    | none => c :: offers taken cs
    | some label => if taken.contains label then offers taken cs else c :: offers (label :: taken) cs

/-- **The limit is only a place to stop.** -/
theorem choose_eq_take (count : Nat) (taken : List String) (cs : List Candidate) :
    choose count taken cs = (offers taken cs).take count := by
  induction cs generalizing count taken with
  | nil => cases count <;> rfl
  | cons c cs ih =>
    cases count with
    | zero => rfl
    | succ count =>
      rw [choose, offers]
      cases c.label with
      | none => exact congrArg (c :: ·) (ih count taken)
      | some label =>
        show (if taken.contains label = true then _ else _) =
          List.take _ (if taken.contains label = true then _ else _)
        split
        · exact ih (count + 1) taken
        · exact congrArg (c :: ·) (ih count (label :: taken))

theorem offers_sublist (taken : List String) (cs : List Candidate) : (offers taken cs).Sublist cs := by
  induction cs generalizing taken with
  | nil => exact .slnil
  | cons c cs ih =>
    rw [offers]
    split
    · exact (ih taken).cons_cons c
    · split
      · exact (ih taken).cons c
      · exact (ih _).cons_cons c

/-- Every candidate without a label is offered. -/
theorem unlabelled_offers (taken : List String) (cs : List Candidate) :
    (offers taken cs).filter (·.label.isNone) = cs.filter (·.label.isNone) := by
  induction cs generalizing taken with
  | nil => rfl
  | cons c cs ih =>
    rw [offers]
    cases hc : c.label with
    | none => simp [hc, ih]
    | some label =>
      by_cases htaken : taken.contains label = true
      · simp only [if_pos htaken, ih]
        simp [hc]
      · simp only [if_neg htaken]
        simp [hc, ih]

/-- The labels of the offers are those that candidates carry and that are not taken. -/
theorem mem_labels_offers {taken : List String} {cs : List Candidate} :
    label ∈ (offers taken cs).filterMap (·.label) ↔ label ∈ cs.filterMap (·.label) ∧ label ∉ taken := by
  induction cs generalizing taken with
  | nil => exact ⟨fun h => absurd h List.not_mem_nil, fun h => absurd h.1 List.not_mem_nil⟩
  | cons c cs ih =>
    rw [offers]
    cases hc : c.label with
    | none => simp only [List.filterMap_cons_none hc, ih]
    | some own =>
      by_cases htaken : taken.contains own = true
      · have hown : own ∈ taken := List.contains_iff_mem.mp htaken
        simp only [if_pos htaken, List.filterMap_cons_some hc, ih, List.mem_cons]
        refine ⟨fun ⟨h, hnot⟩ => ⟨.inr h, hnot⟩, fun ⟨h, hnot⟩ => ⟨h.resolve_left ?_, hnot⟩⟩
        rintro rfl
        exact hnot hown
      · have hown : own ∉ taken := fun hmem => htaken (List.contains_iff_mem.mpr hmem)
        simp only [if_neg htaken, List.filterMap_cons_some hc, ih, List.mem_cons]
        constructor
        · rintro (rfl | ⟨h, hnot⟩)
          · exact ⟨.inl rfl, hown⟩
          · exact ⟨.inr h, fun hmem => hnot (.inr hmem)⟩
        · rintro ⟨h, hnot⟩
          by_cases heq : label = own
          · exact .inl heq
          · exact .inr ⟨h.resolve_left heq, fun hmem => hmem.elim heq hnot⟩

theorem nodup_labels_offers (taken : List String) (cs : List Candidate) :
    ((offers taken cs).filterMap (·.label)).Nodup := by
  induction cs generalizing taken with
  | nil => exact List.nodup_nil
  | cons c cs ih =>
    rw [offers]
    cases hc : c.label with
    | none => simpa only [List.filterMap_cons_none hc] using ih taken
    | some own =>
      by_cases htaken : taken.contains own = true
      · simpa only [if_pos htaken] using ih taken
      · simp only [if_neg htaken, List.filterMap_cons_some hc, List.nodup_cons]
        -- from here on the label is taken
        refine ⟨fun hmem => ?_, ih _⟩
        exact (mem_labels_offers.mp hmem).2 List.mem_cons_self

/-- **Among sorted candidates, what is offered under a label has the least score of that label.** -/
theorem least_of_mem_offers (hsorted : cs.Pairwise fun a b => a.score.totalKey ≤ b.score.totalKey)
    (hc : c ∈ offers taken cs) (hlabel : c.label = some label) :
    ∀ d ∈ cs, d.label = some label → c.score.totalKey ≤ d.score.totalKey := by
  induction cs generalizing taken with
  | nil => exact fun _ hd => absurd hd List.not_mem_nil
  | cons first cs ih =>
    obtain ⟨hfirst, hrest⟩ := List.pairwise_cons.mp hsorted
    -- an offer from the rest does not have the label of the first candidate
    have hlater : ∀ taken', c ∈ offers taken' cs → (first.label = some label → label ∈ taken') →
        ∀ d ∈ first :: cs, d.label = some label → c.score.totalKey ≤ d.score.totalKey := by
      intro taken' hc' htaken' d hd hdlabel
      rcases List.mem_cons.mp hd with rfl | hd
      · have hmem : label ∈ (offers taken' cs).filterMap (·.label) :=
          List.mem_filterMap.mpr ⟨c, hc', hlabel⟩
        exact absurd (htaken' hdlabel) (mem_labels_offers.mp hmem).2
      · exact ih hrest hc' d hd hdlabel
    have hleast :
        c = first → ∀ d ∈ first :: cs, d.label = some label → c.score.totalKey ≤ d.score.totalKey := by
      rintro rfl d hd _
      rcases List.mem_cons.mp hd with rfl | hd
      · exact Nat.le_refl _
      · exact hfirst d hd
    rw [offers] at hc
    cases hown : first.label with
    | none =>
      rw [hown] at hc
      rcases List.mem_cons.mp hc with heq | hc
      · exact hleast heq
      · exact hlater taken hc fun h => by rw [hown] at h; cases h
    | some own =>
      rw [hown] at hc
      by_cases htaken : taken.contains own = true
      · simp only [if_pos htaken] at hc
        refine hlater taken hc fun h => ?_
        rw [hown] at h
        cases h
        exact List.contains_iff_mem.mp htaken
      · simp only [if_neg htaken] at hc
        rcases List.mem_cons.mp hc with heq | hc
        · exact hleast heq
        · refine hlater (own :: taken) hc fun h => ?_
          rw [hown] at h
          cases h
          exact List.mem_cons_self

/-- The scores of labelled candidates, where each is the least one of its label. -/
theorem scores_of_least {offered : List Candidate}
    (h : ∀ c ∈ offered, ∀ label, c.label = some label → leastScore? cs label = some c.score) :
    (offered.filter (!·.label.isNone)).map (·.score) =
      (offered.filterMap (·.label)).filterMap (leastScore? cs) := by
  induction offered with
  | nil => rfl
  | cons c offered ih =>
    obtain ⟨hc, hrest⟩ := List.forall_mem_cons.mp h
    cases hlabel : c.label with
    | none =>
      rw [List.filterMap_cons_none hlabel, ← ih hrest]
      simp [hlabel]
    | some label =>
      rw [List.filterMap_cons_some hlabel, List.filterMap_cons_some (hc label hlabel), ← ih hrest]
      simp [hlabel]

/-! ## The choice -/

theorem rank_perm (cs : List Candidate) : (rank cs).Perm cs := List.mergeSort_perm _ _

theorem rank_sorted (cs : List Candidate) :
    (rank cs).Pairwise fun a b => a.score.totalKey ≤ b.score.totalKey :=
  mergeSort_ascending (·.score.totalKey) cs

/-- The labels of what is offered are the labels there are. -/
theorem labels_offers_perm (h : shuffled.Perm cs) :
    ((offers [] (rank shuffled)).filterMap (·.label)).Perm (labels cs) := by
  refine (List.perm_ext_iff_of_nodup (nodup_labels_offers _ _) (List.nodup_dedup _)).mpr fun label => ?_
  rw [mem_labels_offers, List.mem_dedup, (((rank_perm shuffled).trans h).filterMap _).mem_iff]
  exact and_iff_left List.not_mem_nil

/-- What is offered, by count. -/
theorem length_offers (h : shuffled.Perm cs) :
    (offers [] (rank shuffled)).length = (cs.filter (·.label.isNone)).length + (labels cs).length := by
  have hunlabelled := (((rank_perm shuffled).trans h).filter (·.label.isNone)).length_eq
  rw [List.length_eq_length_filter_add (·.label.isNone), unlabelled_offers, hunlabelled,
    ← (labels_offers_perm h).length_eq, List.length_filterMap_eq_countP, List.countP_eq_length_filter]
  simp only [Option.not_isNone]

/-- **The scores of what is offered are the scores to be had.** -/
theorem scores_offers_perm (h : shuffled.Perm cs) :
    ((offers [] (rank shuffled)).map (·.score)).Perm (contenders cs) := by
  have hranked := (rank_perm shuffled).trans h
  have hleast : ∀ c ∈ offers [] (rank shuffled), ∀ label, c.label = some label →
      leastScore? cs label = some c.score := by
    intro c hc label hlabel
    refine leastScore?_eq (hranked.mem_iff.mp ((offers_sublist _ _).subset hc)) hlabel fun d hd => ?_
    exact least_of_mem_offers (rank_sorted shuffled) hc hlabel d (hranked.mem_iff.mpr hd)
  calc (offers [] (rank shuffled)).map (·.score)
      |>.Perm (((offers [] (rank shuffled)).filter (·.label.isNone)).map (·.score) ++
        ((offers [] (rank shuffled)).filter (!·.label.isNone)).map (·.score)) := by
        rw [← List.map_append]
        exact (List.filter_append_perm _ _).symm.map _
    _ |>.Perm (contenders cs) := by
        rw [unlabelled_offers, scores_of_least hleast]
        exact ((hranked.filter _).map _).append ((labels_offers_perm h).filterMap _)

/-- The choice among candidates that the shuffle has put into this order. -/
def selection (shuffled : List Candidate) (count : Nat) : List Candidate :=
  choose count [] (rank shuffled)

theorem selection_eq_take (shuffled : List Candidate) (count : Nat) :
    selection shuffled count = (offers [] (rank shuffled)).take count :=
  choose_eq_take count [] (rank shuffled)

/-- A choice comes from the candidates, each at most once. -/
theorem selection_sublist (shuffled : List Candidate) (count : Nat) :
    (selection shuffled count).Sublist (rank shuffled) := by
  rw [selection_eq_take]
  exact (List.take_sublist _ _).trans (offers_sublist _ _)

/-- **Selection is an optimal choice, and its scores do not depend on the shuffle.** Whatever order
the shuffle puts the candidates in: what is chosen is some of them, none more often than it is
there, in ascending order of score and with no label twice. There are as many as the limit allows,
out of all that have no label and one of each label. Their scores are the first ones when all scores
to be had are sorted, so they are the same for every shuffle. A larger limit goes on with the same
choice. And `select` chooses in this way, from an order of the candidates that does not depend on
the limit. -/
theorem selection_optimal (h : shuffled.Perm cs) (count : Nat) :
    (selection shuffled count).Subperm cs ∧
    ((selection shuffled count).Pairwise fun a b => a.score.totalKey ≤ b.score.totalKey) ∧
    ((selection shuffled count).filterMap (·.label)).Nodup ∧
    (selection shuffled count).length =
      min count ((cs.filter (·.label.isNone)).length + (labels cs).length) ∧
    (selection shuffled count).map (·.score) = (Binary32.sorted (contenders cs)).take count ∧
    (∀ limit, count ≤ limit → selection shuffled count = (selection shuffled limit).take count) ∧
    ∀ source, (source.shuffle cs).1.Perm cs ∧
      select cs count source = (selection (source.shuffle cs).1 count, (source.shuffle cs).2) := by
  have hsub := selection_sublist shuffled count
  refine ⟨?_, ?_, ?_, ?_, ?_, ?_, ?_⟩
  · exact hsub.subperm.trans ((rank_perm shuffled).trans h).subperm
  · exact (rank_sorted shuffled).sublist hsub
  · rw [selection_eq_take]
    exact (nodup_labels_offers [] (rank shuffled)).sublist ((List.take_sublist _ _).filterMap _)
  · rw [selection_eq_take, List.length_take, length_offers h]
  · rw [selection_eq_take, List.map_take]
    have hsorted :
        ((offers [] (rank shuffled)).map (·.score)).Pairwise fun a b => a.totalKey ≤ b.totalKey :=
      List.pairwise_map.mpr ((rank_sorted shuffled).sublist (offers_sublist _ _))
    rw [Binary32.eq_sorted (scores_offers_perm h) hsorted]
  · intro limit hlimit
    rw [selection_eq_take, selection_eq_take, List.take_take, Nat.min_eq_left hlimit]
  · intro source
    exact ⟨source.shuffle_perm cs, rfl⟩

/-- Two of one label and of equal score, one without a label whose score is not a number, and one of
negative zero. -/
def rivals : List Candidate :=
  [⟨[1], ⟨0x3f000000⟩, some "trade"⟩, ⟨[2], ⟨0x7fc00000⟩, none⟩, ⟨[3], ⟨0x3f000000⟩, some "trade"⟩,
    ⟨[4], ⟨0x80000000⟩, none⟩]

/-- Backwards, the later one of the two is chosen, behind the zero; the one that is not a number
comes last, and would be the third. -/
theorem selection_optimal_rivals :
    rivals.reverse.Perm rivals ∧ selection rivals.reverse 2 =
      [⟨[4], ⟨0x80000000⟩, none⟩, ⟨[3], ⟨0x3f000000⟩, some "trade"⟩] ∧
      (selection rivals.reverse 2).map (·.score) = (selection rivals 2).map (·.score) ∧
      (selection rivals.reverse 2).length = min 2 (2 + 1) ∧
      selection rivals.reverse 2 = (selection rivals.reverse 3).take 2 := by
  have hperm : rivals.reverse.Perm rivals := List.reverse_perm rivals
  obtain ⟨_, _, _, hlength, hscores, hlimit, _⟩ := selection_optimal hperm 2
  obtain ⟨_, _, _, _, hscores', _, _⟩ := selection_optimal (List.Perm.refl rivals) 2
  refine ⟨hperm, ?_, hscores.trans hscores'.symm, ?_, hlimit 3 (by decide)⟩
  · simp [selection, rank, rivals, List.mergeSort, choose, Binary32.totalKey, Binary32.isNegative]
  · rw [hlength]
    decide

end Candidate
end Narrative

import Narrative.Proofs.Cycle
import Narrative.Proofs.Declaring
import Narrative.Proofs.Plots

/-!
# `Proofs.Accepting` — which declarations a plot takes in

A plot with new actions in it is validated as a whole, and still validation says something about the
new ones alone. Old actions lead to old ones only, so a way that has reached one stays among them. A
loop is therefore either an old one, of which there is none, or runs through declared links only.

The last pass spreads labels and has nothing left to complain about.

## Contents
- **The shape.** `Follows`; `Joins.wellShaped_iff`.
- **Validation.** `fault?_eq_none_iff` and `validate_eq_ok`.
- **Loading.** `Accepts`, `extend_ok` and `Accepts.extend_succeeds`.
- **The main result** is `loadActions_accepts_extensions`.
-/

namespace Narrative
open Outcome Relation

namespace Plot

variable {r : Registry} {owner : String} {p q : Plot} {d : ActionDecl} {ds : List ActionDecl} {uid : Uid}

/-! ## The shape -/

/-- `b` is among the links that the declaration of `a` asks for. -/
def Follows (ds : List ActionDecl) (a b : Uid) : Prop := ∃ d ∈ ds, d.uid = a ∧ b ∈ d.leadsTo

theorem Joins.leads_new (h : p.Joins ActionDecl.linked ds q) (hd : d ∈ ds) {b : Uid} :
    q.Leads d.uid b ↔ b ∈ d.leadsTo := by
  unfold Leads
  rw [childrenOf_eq_content, h.new d hd]
  exact List.mem_eraseDups

theorem Joins.leads_old (h : p.Joins ActionDecl.linked ds q) {a b : Uid} (ha : a ∉ ds.map (·.uid)) :
    q.Leads a b ↔ p.Leads a b := by
  unfold Leads
  rw [childrenOf_eq_content, h.old a ha, ← childrenOf_eq_content]

theorem Joins.leads_of_follows (h : p.Joins ActionDecl.linked ds q) {a b : Uid} (hab : Follows ds a b) :
    q.Leads a b := by
  obtain ⟨d, hd, rfl, hb⟩ := hab
  exact (h.leads_new hd).mpr hb

/-- A link that is not declared is an old one. -/
theorem Joins.leads_cases (h : p.Joins ActionDecl.linked ds q) {a b : Uid} (hab : q.Leads a b) :
    Follows ds a b ∨ a ∉ ds.map (·.uid) ∧ p.Leads a b := by
  by_cases ha : a ∈ ds.map (·.uid)
  · obtain ⟨d, hd, rfl⟩ := List.mem_map.mp ha
    exact .inl ⟨d, hd, rfl, (h.leads_new hd).mp hab⟩
  · exact .inr ⟨ha, (h.leads_old ha).mp hab⟩

/-- Ways whose steps lead from mapped actions to mapped ones may be followed step by step. -/
theorem transGen_of_mapped {R S : Uid → Uid → Prop}
    (hstep : ∀ {a b}, p.mapped a = true → R a b → S a b ∧ p.mapped b = true) {a b : Uid}
    (ha : p.mapped a = true) (hab : TransGen R a b) : TransGen S a b := by
  induction hab using TransGen.head_induction_on with
  | single hab => exact .single (hstep ha hab).1
  | head hac _ ih =>
    obtain ⟨hfirst, hc⟩ := hstep ha hac
    exact .head hfirst (ih hc)

/-- **A way from an old action stays among the old ones.** -/
theorem Joins.below_old (h : p.Joins ActionDecl.linked ds q)
    (hlinks : ∀ a b, p.Leads a b → p.mapped b = true) (hfresh : ∀ d ∈ ds, p.mapped d.uid = false)
    {a b : Uid} (ha : p.mapped a = true) (hab : TransGen q.Leads a b) :
    TransGen p.Leads a b := by
  refine transGen_of_mapped (fun ha hab => ?_) ha hab
  have hold := (h.leads_old (not_declared_of_mapped hfresh ha)).mp hab
  exact ⟨hold, hlinks _ _ hold⟩

/-- A way to an action that is not old takes declared links only. -/
theorem Joins.follows_of_below (h : p.Joins ActionDecl.linked ds q)
    (hlinks : ∀ a b, p.Leads a b → p.mapped b = true) (hfresh : ∀ d ∈ ds, p.mapped d.uid = false)
    {a b : Uid} (hb : ¬p.mapped b = true) (hab : TransGen q.Leads a b) :
    TransGen (Follows ds) a b := by
  induction hab using TransGen.head_induction_on with
  | single hab =>
    rcases h.leads_cases hab with hdeclared | ⟨_, hold⟩
    · exact .single hdeclared
    · exact absurd (hlinks _ _ hold) hb
  | head hac hcb ih =>
    rcases h.leads_cases hac with hdeclared | ⟨_, hold⟩
    · exact .head hdeclared ih
    · -- the way is among old actions by now, and would end there
      obtain ⟨_, _, hlast⟩ := TransGen.tail'_iff.mp (h.below_old hlinks hfresh (hlinks _ _ hold) hcb)
      exact absurd (hlinks _ _ hlast) hb

/-- **What is joined has a sound shape exactly if all links are to known uids and no declarations
lead round in a circle.** -/
theorem Joins.wellShaped_iff (h : p.Joins ActionDecl.linked ds q) (hp : p.WellShaped)
    (hfresh : ∀ d ∈ ds, p.mapped d.uid = false) : q.WellShaped ↔
    (∀ d ∈ ds, ∀ child ∈ d.leadsTo, p.mapped child = true ∨ child ∈ ds.map (·.uid)) ∧
      ∀ uid, ¬TransGen (Follows ds) uid uid := by
  constructor
  · intro hq
    refine ⟨fun d hd child hchild => ?_, fun uid hloop => ?_⟩
    · exact ((h.mapped_iff child).mp (hq.links _ _ ((h.leads_new hd).mpr hchild))).symm
    · exact hq.acyclic uid (TransGen.mono (fun _ _ => h.leads_of_follows) uid uid hloop)
  · rintro ⟨hknown, hacyclic⟩
    refine ⟨h.rootsMapped hp.roots, fun a b hab => ?_, fun a hloop => ?_⟩
    · rw [h.mapped_iff]
      rcases h.leads_cases hab with ⟨d, hd, rfl, hb⟩ | ⟨_, hold⟩
      · exact (hknown d hd b hb).symm
      · exact .inr (hp.links a b hold)
    · by_cases ha : p.mapped a = true
      · exact hp.acyclic a (h.below_old hp.links hfresh ha hloop)
      · exact hacyclic a (h.follows_of_below hp.links hfresh ha hloop)

/-! ## Validation -/

/-- **Validation finds a fault exactly in the plots that have one.** -/
theorem fault?_eq_none_iff : p.fault? = none ↔ p.WellShaped := by
  refine ⟨wellShaped_of_fault?, fun hp => ?_⟩
  have hroots : p.roots.find? (fun r => !p.mapped r) = none :=
    List.find?_eq_none.mpr fun uid huid => by simp [hp.roots uid huid]
  have hlinks : p.danglingLinks = [] := by
    unfold danglingLinks
    refine List.flatMap_eq_nil_iff.mpr fun a ha =>
      List.map_eq_nil_iff.mpr (List.filter_eq_nil_iff.mpr ?_)
    intro child hchild
    obtain ⟨⟨uid, _⟩, hentry, rfl⟩ := List.mem_map.mp ha
    simp [hp.links uid child (leads_of_mem (SortedMap.get?_eq_some_iff.mpr hentry) hchild)]
  unfold fault?
  rw [hroots, hlinks]
  cases hcycle : p.findCycle? with
  | none => rfl
  | some path =>
    obtain ⟨uid, hloop⟩ := (closesLoop_of_findCycle? hcycle).leads_back
    exact absurd hloop (hp.acyclic uid)

theorem validate_eq_ok : p.validate = .ok q ↔ p.WellShaped ∧ q = { p with validated := true } := by
  unfold validate
  rw [← fault?_eq_none_iff]
  cases p.fault? with
  | none => exact ⟨fun h => ⟨rfl, (Except.ok.inj h).symm⟩, fun h => congrArg _ h.2.symm⟩
  | some e => exact ⟨fun h => (nomatch h), fun h => (nomatch h.1)⟩

/-! ## Loading -/

/-- A plot **accepts** declarations if they fit in, their uids are new and different, they lead to
old actions and to each other only, and none of them leads back to itself. -/
structure Accepts (r : Registry) (p : Plot) (ds : List ActionDecl) : Prop where
  fit : ∀ d ∈ ds, d.FitsIn r
  distinct : (ds.map (·.uid)).Nodup
  fresh : ∀ d ∈ ds, p.mapped d.uid = false
  known : ∀ d ∈ ds, ∀ child ∈ d.leadsTo, p.mapped child = true ∨ child ∈ ds.map (·.uid)
  acyclic : ∀ uid, ¬TransGen (Follows ds) uid uid

theorem spread_succeeds (h : p.mapped d.uid = true) : ∃ q, p.spread d = .ok q := by
  obtain ⟨a, ha⟩ := mapped_iff.mp h
  unfold spread spreadLabel
  rw [ha]
  split
  · exact ⟨p, rfl⟩
  · exact ⟨_, rfl⟩

/-- Spreading labels never fails where the declarations are mapped. -/
theorem spreadAll_succeeds (h : ∀ d ∈ ds, p.mapped d.uid = true) : ∃ q, ds.foldlM spread p = .ok q := by
  obtain ⟨q, hq, _⟩ := foldlM_succeeds (P := Relabelled p) (fun d hd p' hp' => by
    obtain ⟨p'', hspread⟩ :=
      spread_succeeds (d := d) (p := p') (by rw [hp'.sameShape.mapped]; exact h d hd)
    exact ⟨p'', hspread, hp'.trans (relabelled_spread hspread)⟩) (relabelled_refl p)
  exact ⟨q, hq⟩

/-- **What loading takes and makes**: it succeeds on the declarations that the plot accepts, joins
them with their links, marks the plot, and then spreads their labels. -/
theorem extend_ok (hp : p.WellShaped) (h : extend r owner p ds = .ok q) : p.Accepts r ds ∧
    ∃ joined, p.Joins ActionDecl.linked ds joined ∧ joined.WellShaped ∧ joined.validated = true ∧
      ds.foldlM spread joined = .ok q := by
  obtain ⟨declared, linked, hdeclared, hlinked, hshape, hlabels⟩ := extend_eq_ok h
  obtain ⟨hfit, hdistinct, hfresh, hjoins⟩ := declareAll_ok hp.roots hdeclared
  obtain ⟨linked', hlinked', hlinks⟩ := hjoins.linkAll hdistinct
  obtain rfl : linked = linked' := Except.ok.inj (hlinked.symm.trans hlinked')
  obtain ⟨hknown, hacyclic⟩ := (hlinks.wellShaped_iff hp hfresh).mp hshape
  -- the mark is neither content nor shape
  have hjoined : p.Joins ActionDecl.linked ds { linked with validated := true } :=
    ⟨hlinks.roots, hlinks.new, hlinks.old⟩
  have hjoinedShape : WellShaped { linked with validated := true } :=
    ⟨hshape.roots, hshape.links, hshape.acyclic⟩
  exact ⟨⟨hfit, hdistinct, hfresh, hknown, hacyclic⟩, _, hjoined, hjoinedShape, rfl, hlabels⟩

theorem Accepts.extend_succeeds (h : p.Accepts r ds) (hp : p.WellShaped) :
    ∃ q, extend r owner p ds = .ok q := by
  obtain ⟨declared, hdeclared⟩ : ∃ declared, ds.foldlM (declare r owner) p = .ok declared :=
    declareAll_succeeds hp.roots h.fit h.distinct h.fresh
  obtain ⟨_, _, _, hjoins⟩ := declareAll_ok hp.roots hdeclared
  obtain ⟨linked, hlinked, hlinks⟩ := hjoins.linkAll h.distinct
  have hshape : linked.WellShaped := (hlinks.wellShaped_iff hp h.fresh).mpr ⟨h.known, h.acyclic⟩
  obtain ⟨q, hq⟩ := spreadAll_succeeds (p := { linked with validated := true }) fun d hd =>
    (hlinks.mapped_iff d.uid).mpr (.inl (List.mem_map_of_mem hd))
  refine ⟨q, bind_eq_ok.mpr ⟨declared, hdeclared, mapError_eq_ok.mpr ?_⟩⟩
  exact bind_eq_ok.mpr ⟨linked, hlinked, bind_eq_ok.mpr ⟨_, validate_eq_ok.mpr ⟨hshape, rfl⟩, hq⟩⟩

/-- An action that has its content from `a` and then got a label. -/
theorem action_of_content {joined : Plot} {a b : Action}
    (hcontent : joined.content uid = some a.unparented) (hlabels : Relabelled joined q)
    (hb : q.action? uid = some b) :
    b = { a with label := b.label, parents := b.parents } := by
  have hactions := hlabels.actions uid
  rw [hb] at hactions
  obtain ⟨c, hc, hlabel⟩ := Option.map_eq_some_iff.mp hactions.symm
  obtain ⟨c', hc', hparents⟩ := Option.map_eq_some_iff.mp hcontent
  obtain rfl : c = c' := Option.some.inj (hc.symm.trans hc')
  -- `c` is `b` before the label, and `a` but for the parents
  have hkept : c.parents = b.parents := congrArg (fun a => a.parents) hlabel
  calc b = { b.unlabelled with label := b.label } := rfl
    _ = { c.unlabelled with label := b.label } := by rw [hlabel]
    _ = { c.unparented with label := b.label, parents := c.parents } := rfl
    _ = { a.unparented with label := b.label, parents := c.parents } := by rw [hparents]
    _ = { a with label := b.label, parents := b.parents } := by rw [hkept]; rfl

/-- `q` is `p` **extended** by declarations. Old and new actions come with all that they had or were
declared with, but for labels and parents, which follow from the others. -/
structure Extended (p : Plot) (ds : List ActionDecl) (q : Plot) : Prop where
  validated : q.validated = true
  roots : q.roots = p.roots ++ (ds.filter (·.first)).map (·.uid)
  old : ∀ uid a, p.action? uid = some a →
    ∃ b, q.action? uid = some b ∧ b = { a with label := b.label, parents := b.parents }
  new : ∀ d ∈ ds, ∃ b, q.action? d.uid = some b ∧
    b = { d.linked with label := b.label, parents := b.parents }
  only : ∀ uid, q.mapped uid = true → p.mapped uid = true ∨ uid ∈ ds.map (·.uid)

theorem extended_of_joins {joined : Plot} (h : p.Joins ActionDecl.linked ds joined)
    (hfresh : ∀ d ∈ ds, p.mapped d.uid = false) (hmark : joined.validated = true)
    (hlabels : Relabelled joined q) :
    p.Extended ds q := by
  have hmapped : ∀ uid, q.mapped uid = joined.mapped uid := hlabels.sameShape.mapped
  have haction : ∀ {uid : Uid} {a : Action}, joined.content uid = some a.unparented →
      ∃ b, q.action? uid = some b ∧ b = { a with label := b.label, parents := b.parents } := by
    intro uid a hcontent
    obtain ⟨b, hb⟩ := mapped_iff.mp (by rw [hmapped, mapped_eq_content, hcontent]; rfl)
    exact ⟨b, hb, action_of_content hcontent hlabels hb⟩
  refine ⟨hlabels.validated.trans hmark, hlabels.roots.trans h.roots, fun uid a ha => ?_, fun d hd => ?_,
    fun uid huid => ?_⟩
  · have hold : uid ∉ ds.map (·.uid) := not_declared_of_mapped hfresh (mapped_iff.mpr ⟨a, ha⟩)
    refine haction ?_
    rw [h.old uid hold]
    unfold content
    rw [ha]
    rfl
  · exact haction (h.new d hd)
  · rw [hmapped] at huid
    exact ((h.mapped_iff uid).mp huid).symm

end Plot

/-! ## The main result -/

namespace Story

variable {s : Story} {name : String} {ds : List ActionDecl}

theorem loadActions_of_some {c : Character} (hc : s.cast.get? name = some c) : s.loadActions name ds =
    .ofExcept s ((Plot.extend s.registry name c.plot ds).map fun p =>
      { s with cast := s.cast.update name fun c => { c with plot := p } }) := by
  unfold loadActions
  rw [hc]

/-- A successful load has extended the plot and done nothing else. -/
theorem loadActions_ok (h : (s.loadActions name ds).result = .ok ()) :
    ∃ c p, s.cast.get? name = some c ∧ Plot.extend s.registry name c.plot ds = .ok p ∧
      (s.loadActions name ds).state =
        { s with cast := s.cast.update name fun c => { c with plot := p } } := by
  cases hc : s.cast.get? name with
  | none =>
    unfold loadActions at h
    rw [hc] at h
    cases h
  | some c =>
    rw [loadActions_of_some hc] at h ⊢
    cases hextend : Plot.extend s.registry name c.plot ds with
    | error e =>
      rw [hextend] at h
      cases h
    | ok p => exact ⟨c, p, rfl, hextend, rfl⟩

/-- A load that fails has done nothing. -/
theorem loadActions_error {e : StoryError} (h : (s.loadActions name ds).result = .error e) :
    (s.loadActions name ds).state = s := by
  cases hc : s.cast.get? name with
  | none =>
    unfold loadActions
    rw [hc]
    rfl
  | some c =>
    rw [loadActions_of_some hc] at h ⊢
    cases hextend : Plot.extend s.registry name c.plot ds with
    | error e => rfl
    | ok p =>
      rw [hextend] at h
      cases h

/-- **A story takes in exactly the sound extensions of a plot, and all or nothing of them.** Actions
are loaded if and only if the character is there and its plot accepts them. The plot is then
extended by them, and no other part of the story changes; on a fault nothing does. -/
theorem loadActions_accepts_extensions (h : Reachable s) (name : String) (ds : List ActionDecl) :
    ((s.loadActions name ds).result = .ok () ↔
      ∃ c, s.cast.get? name = some c ∧ c.plot.Accepts s.registry ds) ∧
    ((s.loadActions name ds).result = .ok () → ∃ c p, s.cast.get? name = some c ∧ c.plot.Extended ds p ∧
      (s.loadActions name ds).state =
        { s with cast := s.cast.update name fun c => { c with plot := p } }) ∧
    ∀ e, (s.loadActions name ds).result = .error e → (s.loadActions name ds).state = s := by
  have hshape : ∀ c, s.cast.get? name = some c → c.plot.WellShaped :=
    fun c hc => (h.ready name c hc).toWellShaped
  refine ⟨⟨fun hok => ?_, ?_⟩, fun hok => ?_, fun _ => loadActions_error⟩
  · obtain ⟨c, p, hc, hextend, _⟩ := loadActions_ok hok
    exact ⟨c, hc, (Plot.extend_ok (hshape c hc) hextend).1⟩
  · rintro ⟨c, hc, haccepts⟩
    obtain ⟨p, hextend⟩ : ∃ p, Plot.extend s.registry name c.plot ds = .ok p :=
      haccepts.extend_succeeds (hshape c hc)
    rw [loadActions_of_some hc, hextend]
    rfl
  · obtain ⟨c, p, hc, hextend, hstate⟩ := loadActions_ok hok
    obtain ⟨haccepts, joined, hjoins, _, hmark, hlabels⟩ := Plot.extend_ok (hshape c hc) hextend
    exact ⟨c, p, hc,
      Plot.extended_of_joins hjoins haccepts.fresh hmark (Plot.relabelled_spreadAll hlabels), hstate⟩

/-- Bob may wave. -/
def waving : Story :=
  [Operation.loadCharacters ["Bob"],
    .loadActions "Bob" [{ ActionDecl.new 1 "Wave" with first := true }]].foldl
    (fun s op => op.after s) (start .default (.listed []))

/-- He may also ask something, and then leave or wave; one link is declared twice. -/
def asking : List ActionDecl :=
  [{ ActionDecl.new 2 "Ask" with first := true, leadsTo := [3, 1, 3] }, .new 3 "Leave"]

/-- He may not ask for ever. -/
def nagging : List ActionDecl :=
  [{ ActionDecl.new 2 "Ask" with leadsTo := [3] }, { ActionDecl.new 3 "Insist" with leadsTo := [2] }]

/-- Asking comes in with its links, nagging does not come in. -/
theorem loadActions_accepts_extensions_waving :
    Reachable waving ∧
    (∃ c p, waving.cast.get? "Bob" = some c ∧ p.roots = [1, 2] ∧ p.childrenOf 2 = [3, 1] ∧
      (waving.loadActions "Bob" asking).state =
        { waving with cast := waving.cast.update "Bob" fun c => { c with plot := p } }) ∧
    (waving.loadActions "Bob" nagging).result ≠ .ok () ∧
    (waving.loadActions "Bob" nagging).state = waving := by
  have hreach : Reachable waving := reachable_calls (reachable_start_default _) _
  refine ⟨hreach, ?_, ?_⟩
  · obtain ⟨_, hextended, _⟩ := loadActions_accepts_extensions hreach "Bob" asking
    obtain ⟨c, p, hc, hp, hstate⟩ := hextended rfl
    have hroots : (waving.cast.get? "Bob").map (·.plot.roots) = some [1] := by decide
    rw [hc, Option.map_some, Option.some.injEq] at hroots
    obtain ⟨b, hb, hasked⟩ := hp.new _ List.mem_cons_self
    refine ⟨c, p, hc, ?_, ?_, hstate⟩
    · rw [hp.roots, hroots]; rfl
    · exact (Plot.childrenOf_of_some hb).trans (congrArg (fun b => b.children) hasked)
  · obtain ⟨haccepts, _, hfault⟩ := loadActions_accepts_extensions hreach "Bob" nagging
    have hrefused : (waving.loadActions "Bob" nagging).result ≠ .ok () := fun hok => by
      obtain ⟨c, _, haccepts⟩ := haccepts.mp hok
      have hthere : Plot.Follows nagging 2 3 := ⟨_, List.mem_cons_self, rfl, List.mem_singleton_self 3⟩
      have hback : Plot.Follows nagging 3 2 :=
        ⟨_, List.mem_cons_of_mem _ List.mem_cons_self, rfl, List.mem_singleton_self 2⟩
      exact haccepts.acyclic 2 (.head hthere (.single hback))
    refine ⟨hrefused, ?_⟩
    cases hresult : (waving.loadActions "Bob" nagging).result with
    | ok _ => exact absurd hresult hrefused
    | error e => exact hfault e hresult

end Story
end Narrative

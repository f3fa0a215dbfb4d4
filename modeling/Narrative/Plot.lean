import Narrative.Action
import Narrative.Data.SortedMap

/-!
# `Narrative.Plot` — the actions of one character and their links

A plot is a directed graph of actions with a list of first actions. Several actions may lead to one,
none may lead back to itself. The plot remembers whether it has been validated since its shape last
changed, and is traversed only then: first actions and children are mapped, and there is no cycle.

## Contents
- **The type.** `Plot`, with `action?`, `childrenOf` and `danglingLinks`.
- **Building.** `addFirst`, `insert`, `addChild`.
- **Editing.** `updateAction`, `updateAll`, `removeAction`.
- **Cycles.** `walk`, the search below one uid; `findCycle?` and `isAcyclic`.
- **Validation.** `fault?`, `validate`, `isValidated`, `ensureValidated`.
- **Paths.** `pathsFrom` and `paths?`, from a first action down to a leaf.
- **Labels.** `labelBelow` and `spreadLabel`: a label given to an action descends.
-/

namespace Narrative

/-- The actions of one character. -/
structure Plot where
  /-- The first actions, in author order. -/
  roots : List Uid
  actions : SortedMap Uid Action
  /-- Whether the shape was found sound and has not changed since. -/
  validated : Bool
deriving DecidableEq

namespace Plot

/-- The plot without actions. -/
def empty : Plot := ⟨[], .empty, false⟩

instance : Inhabited Plot := ⟨empty⟩

/-! ## Reading -/

/-- The action mapped to a uid. -/
def action? (p : Plot) (uid : Uid) : Option Action := p.actions.get? uid

/-- Whether a uid is mapped. -/
def mapped (p : Plot) (uid : Uid) : Bool := p.actions.contains uid

/-- The uids that an action leads to. -/
def childrenOf (p : Plot) (uid : Uid) : List Uid := ((p.action? uid).map (·.children)).getD []

/-- The number of actions. -/
def size (p : Plot) : Nat := p.actions.size

/-- The links to uids that are not mapped, as pairs of parent and child. -/
def danglingLinks (p : Plot) : List (Uid × Uid) :=
  p.actions.values.flatMap fun a => (a.children.filter fun c => !p.mapped c).map fun c => (a.uid, c)

/-! ## Building -/

/-- Marks a uid as a first action. -/
def addFirst (p : Plot) (uid : Uid) : Plot :=
  if p.roots.contains uid then p else { p with roots := p.roots ++ [uid], validated := false }

/-- Maps an action to its uid. It comes without children; the actions that already lead to its uid
become its parents. -/
def insert (p : Plot) (a : Action) : Except PlotError Plot :=
  if p.mapped a.uid then .error (.duplicateUid a.uid)
  else
    let parents := (p.actions.values.filter fun b => b.children.contains a.uid).map (·.uid)
    .ok { p with
      actions := p.actions.insert a.uid { a with children := [], parents := parents }
      validated := false }

/-- Links a child under a mapped parent; the child may be mapped later. A link that exists stays as
it is. -/
def addChild (p : Plot) (parent child : Uid) : Except PlotError Plot :=
  match p.action? parent with
  | none => .error (.unmappedAction parent)
  | some a =>
    if a.children.contains child then .ok p
    else
      let linked := p.actions.insert parent { a with children := a.children ++ [child] }
      .ok { p with
        actions := linked.modify child fun c => { c with parents := c.parents ++ [parent] }
        validated := false }

/-! ## Editing -/

/-- Changes one action in place; the validation mark stays. -/
def updateAction (p : Plot) (uid : Uid) (f : Action → Action) : Plot :=
  { p with actions := p.actions.modify uid f }

/-- Changes every action in place; the validation mark stays. -/
def updateAll (p : Plot) (f : Action → Action) : Plot := { p with actions := p.actions.map f }

/-- Takes an action out, with every link to or from it and its place among the first actions. A uid
that is not mapped stays where it stands. -/
def removeAction (p : Plot) (uid : Uid) : Plot :=
  if p.mapped uid then
    { p with
      roots := p.roots.filter (· != uid)
      actions := (p.actions.erase uid).map fun a =>
        { a with children := a.children.filter (· != uid), parents := a.parents.filter (· != uid) } }
  else p

/-! ## Cycles

A depth-first walk keeps the path it came by and the uids below which nothing loops back. Meeting a
uid of the path again closes a cycle. -/

/-- Searches below `uid`, which was reached by `path`. Fails with the path that meets a uid again;
otherwise gives the uids known to be clean. A path grows only through mapped actions that are not on
it, so their number bounds its length. -/
def walk (p : Plot) : (depth : Nat) → (path clean : List Uid) → Uid → Except (List Uid) (List Uid)
  | depth, path, clean, uid =>
    if path.contains uid then .error (path ++ [uid])
    else if clean.contains uid then .ok clean
    else
      match depth with
      | 0 => .ok clean
      | depth + 1 => do
        let clean ← (p.childrenOf uid).foldlM
          (fun clean child => walk p depth (path ++ [uid]) clean child) clean
        return uid :: clean

/-- A path that meets its last uid twice, if there is one: below a first action, or else below any
action in the order of uids. -/
def findCycle? (p : Plot) : Option (List Uid) :=
  match (p.roots ++ p.actions.keys).foldlM
    (fun clean start => p.walk (p.size + 1) [] clean start) [] with
  | .error path => some path
  | .ok _ => none

/-- Whether no action leads back to itself. -/
def isAcyclic (p : Plot) : Bool := p.findCycle?.isNone

/-! ## Validation -/

/-- The first fault in the shape: a first action that is not mapped, a child that is not, a cycle. -/
def fault? (p : Plot) : Option PlotError :=
  match p.roots.find? fun r => !p.mapped r with
  | some root => some (.unmappedAction root)
  | none =>
    match p.danglingLinks with
    | (parent, child) :: _ => some (.danglingChild parent child)
    | [] => p.findCycle?.map .cycle

/-- Checks the shape and marks the plot. -/
def validate (p : Plot) : Except PlotError Plot :=
  match p.fault? with
  | some e => .error e
  | none => .ok { p with validated := true }

/-- Whether the plot may be traversed; one without actions always may. -/
def isValidated (p : Plot) : Bool := p.validated || (p.roots.isEmpty && p.actions.isEmpty)

/-- Refuses a plot that may not be traversed. -/
def ensureValidated (p : Plot) : Except PlotError Unit :=
  if p.isValidated then .ok () else .error .notValidated

/-! ## Paths -/

/-- The paths of at most `depth` actions from `uid` down to a leaf, in author order. Uids that are not
mapped have none. -/
def pathsFrom (p : Plot) : (depth : Nat) → Uid → List (List Uid)
  | 0, _ => []
  | depth + 1, uid =>
    match p.action? uid with
    | none => []
    | some a => if a.isLeaf then [[uid]] else (a.children.flatMap (p.pathsFrom depth)).map (uid :: ·)

/-- Every path from a first action to a leaf. Without cycles a path has at most as many actions as
the plot. -/
def paths? (p : Plot) : Except PlotError (List (List Uid)) := do
  p.ensureValidated
  return p.roots.flatMap (p.pathsFrom p.size)

/-! ## Labels

A label given to an action also goes to the unlabelled actions below it. A label that is already
there stays, and nothing below it is touched. -/

/-- Gives an action a label unless it has one. -/
def labelIfNone (a : Action) (label : String) : Action := { a with label := a.label.or (some label) }

/-- Labels `uid` and, below it, whatever is reached through unlabelled actions. Every step down has
labelled one more action, so their number bounds the depth. -/
def labelBelow (label : String) : (depth : Nat) → Plot → Uid → Plot
  | 0, p, _ => p
  | depth + 1, p, uid =>
    match p.action? uid with
    | none => p
    | some a =>
      if a.label.isSome then p
      else a.children.foldl (labelBelow label depth) (p.updateAction uid (labelIfNone · label))

/-- Labels an action and its unlabelled descendants. -/
def spreadLabel (p : Plot) (uid : Uid) (label : String) : Except PlotError Plot :=
  match p.action? uid with
  | none => .error (.unmappedAction uid)
  | some a => .ok (a.children.foldl (labelBelow label p.size) (p.updateAction uid (labelIfNone · label)))

end Plot

end Narrative

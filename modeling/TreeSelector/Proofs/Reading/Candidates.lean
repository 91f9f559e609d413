import TreeSelector.Proofs.Reading.Transfer

/-!
# Walks as lists

Through a steady view a walk is the list of its candidates: searching it is
searching that list, collecting from it is filtering that list, and where the
host's index does not answer, what is looked up is found by such a walk.
-/

namespace TreeSelector

open Reading (Gives)

variable {view : View} {α : Type} {test : NodeId → Reading (Option α)}

/-- The nodes that a connector leads to, in the order in which they are tried. -/
def View.candidates (view : View) (connector : Connector) (node : NodeId)
    (window : Window) : Reading (List NodeId) := do
  let walk ← Walk.start view connector node window
  walk.toList view

/-- What a bounded walk meets below a node, in pre-order. -/
def View.descendants (view : View) (node : NodeId) : Reading (List NodeId) :=
  view.candidates .descendant node .unbounded

section Lists

theorem gives_searchAmong (tests : ∀ node, (test node).IsSteady) (nodes : List NodeId) :
    Gives (View.searchAmong test nodes) (nodes.findSome? fun node => (test node).result) := by
  induction nodes with
  | nil => exact .pure none
  | cons node nodes hypothesis =>
      refine (tests node).gives.bind ?_
      rw [List.findSome?_cons]
      cases (test node).result with
      | none => exact hypothesis
      | some found => exact .pure _

theorem gives_collectAmong (tests : ∀ node, (test node).IsSteady) (nodes : List NodeId) :
    Gives (View.collectAmong test nodes)
      (nodes.filterMap fun node => (test node).result) := by
  induction nodes with
  | nil => exact .pure []
  | cons node nodes hypothesis =>
      refine (tests node).gives.bind ?_
      rw [List.filterMap_cons]
      cases (test node).result with
      | none => exact hypothesis
      | some found => exact hypothesis.map _

end Lists

section Walks

theorem gives_take_succ (steady : view.IsSteady) (count : Nat) (walk : Walk) :
    Gives (Walk.take view (count + 1) walk)
      (match (walk.next view).result with
      | none => []
      | some (node, walk) => node :: (Walk.take view count walk).result) := by
  refine (steady.next walk).gives.bind ?_
  cases (walk.next view).result with
  | none => exact .pure []
  | some found => exact (steady.take count found.2).gives.map _

theorem gives_searchUpTo (steady : view.IsSteady)
    (tests : ∀ node, (test node).IsSteady) (count : Nat) (walk : Walk) :
    Gives (Walk.searchUpTo view test count walk)
      ((Walk.take view count walk).result.findSome? fun node => (test node).result) := by
  induction count generalizing walk with
  | zero => exact .pure none
  | succ count hypothesis =>
      rw [(gives_take_succ steady count walk).result_eq]
      refine (steady.next walk).gives.bind ?_
      cases (walk.next view).result with
      | none => exact .pure none
      | some found =>
          refine (tests found.1).gives.bind ?_
          rw [List.findSome?_cons]
          cases (test found.1).result with
          | none => exact hypothesis found.2
          | some answer => exact .pure _

theorem gives_collectUpTo (steady : view.IsSteady)
    (tests : ∀ node, (test node).IsSteady) (count : Nat) (walk : Walk) :
    Gives (Walk.collectUpTo view test count walk)
      ((Walk.take view count walk).result.filterMap fun node => (test node).result) := by
  induction count generalizing walk with
  | zero => exact .pure []
  | succ count hypothesis =>
      rw [(gives_take_succ steady count walk).result_eq]
      refine (steady.next walk).gives.bind ?_
      cases (walk.next view).result with
      | none => exact .pure []
      | some found =>
          refine (tests found.1).gives.bind ?_
          rw [List.filterMap_cons]
          cases (test found.1).result with
          | none => exact hypothesis found.2
          | some answer => exact (hypothesis found.2).map _

theorem gives_candidates (steady : view.IsSteady) (connector : Connector) (node : NodeId)
    (window : Window) :
    Gives (view.candidates connector node window)
      (let walk := (Walk.start view connector node window).result
      (Walk.take view walk.left walk).result) :=
  (steady.start connector node window).gives.bind (steady.toList _).gives

/-- The first success along a connector is the first one among its candidates. -/
theorem gives_start_search (steady : view.IsSteady)
    (tests : ∀ node, (test node).IsSteady) (connector : Connector) (node : NodeId)
    (window : Window) :
    Gives
      (do
        let walk ← Walk.start view connector node window
        walk.search view test)
      ((view.candidates connector node window).result.findSome?
        fun node => (test node).result) := by
  rw [(gives_candidates steady connector node window).result_eq]
  exact (steady.start connector node window).gives.bind (gives_searchUpTo steady tests _ _)

/-- All successes along a connector are those among its candidates. -/
theorem gives_start_collect (steady : view.IsSteady)
    (tests : ∀ node, (test node).IsSteady) (connector : Connector) (node : NodeId)
    (window : Window) :
    Gives
      (do
        let walk ← Walk.start view connector node window
        walk.collect view test)
      ((view.candidates connector node window).result.filterMap
        fun node => (test node).result) := by
  rw [(gives_candidates steady connector node window).result_eq]
  exact (steady.start connector node window).gives.bind (gives_collectUpTo steady tests _ _)

end Walks

section Keys

theorem gives_answersTo (steady : view.IsSteady) (node : NodeId) (keys : List IndexKey) :
    Gives (view.answersTo node keys)
      (keys.any fun key => key.accepts (view.attributeValue node key.subject).result) := by
  induction keys with
  | nil => exact .pure false
  | cons key keys hypothesis =>
      refine (steady.attributeValue node key.subject).gives.bind ?_
      rw [List.any_cons]
      cases key.accepts (view.attributeValue node key.subject).result with
      | false => exact hypothesis
      | true => exact .pure true

/-- What the index answers is what is found. -/
theorem gives_find_of_lookUp_some (steady : view.IsSteady) {node : NodeId}
    {keys : List IndexKey} {found : List NodeId}
    (indexed : (view.lookUp node keys).result = some found) :
    Gives (view.find node keys) found := by
  refine (steady.lookUp node keys).gives.bind ?_
  rw [indexed]
  exact .pure found

/-- Without an index, what is found for some keys are the nodes of a walk that
answer to one. -/
theorem gives_find_of_lookUp_none (steady : view.IsSteady) {node : NodeId}
    {keys : List IndexKey} (unindexed : (view.lookUp node keys).result = none) :
    Gives (view.find node keys)
      ((node :: (view.descendants node).result).filter
        fun node => (view.answersTo node keys).result) := by
  let test : NodeId → Reading (Option NodeId) := fun node => do
    if ← view.answersTo node keys then return some node else return none
  have tests : ∀ node, (test node).IsSteady := fun node =>
    (steady.answersTo node keys).bind fun _ => .ite (.pure _) (.pure _)
  have tested : (fun node => (test node).result) =
      Option.guard fun node => (view.answersTo node keys).result := by
    funext node
    refine Gives.result_eq ((steady.answersTo node keys).gives.bind ?_)
    unfold Option.guard
    split <;> exact .pure _
  have below := gives_start_collect steady tests .descendant node .unbounded
  rw [tested, List.filterMap_eq_filter] at below
  refine (steady.lookUp node keys).gives.bind ?_
  rw [unindexed]
  refine (steady.answersTo node keys).gives.bind ?_
  refine Gives.bind_of_bind below ?_
  rw [List.filter_cons]
  exact .pure _

end Keys

end TreeSelector

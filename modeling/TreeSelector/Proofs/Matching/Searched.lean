import TreeSelector.Proofs.Reading.Candidates

/-!
# Matching as a search of lists

With default options and through a steady view, a chain matches along the first
candidates that allow it, and a query goes over the start node and what lies below
it.  The equations here say so with lists in place of walks.
-/

namespace TreeSelector

open Reading (Gives)

namespace Chain

variable {view : View} (steady : view.IsSteady)

include steady

theorem gives_matchIn (options : QueryOptions) (chain : Chain) (context : Context) :
    Gives (chain.matchIn view options context)
      (chain.matchIn view options context).result :=
  (steady.matchIn options chain context).gives

theorem gives_matchNode (options : QueryOptions) (chain : Chain) (node : NodeId) :
    Gives (chain.matchNode view options node) (chain.matchNode view options node).result :=
  (steady.matchNode options chain node).gives

theorem matchIn_last (options : QueryOptions) (segment : Segment) (context : Context) :
    ((last segment).matchIn view options context).result =
      if (segment.predicate.holds view context).result then some context else none := by
  refine Gives.result_eq ((steady.predicate context segment.predicate).gives.bind ?_)
  cases (segment.predicate.holds view context).result <;> exact .pure _

/-- A chain matches only where its head holds. -/
theorem matchIn_eq_none (options : QueryOptions) (chain : Chain) (context : Context)
    (fails : (chain.head.predicate.holds view context).result = false) :
    (chain.matchIn view options context).result = none := by
  cases chain with
  | last segment =>
      rw [matchIn_last steady, show (segment.predicate.holds view context).result = false
        from fails]
      rfl
  | link segment connector rest =>
      refine Gives.result_eq ((steady.predicate context segment.predicate).gives.bind ?_)
      rw [show (segment.predicate.holds view context).result = false from fails]
      exact .pure none

/-- How the candidates of a connector are searched, as far as the index is not used. -/
theorem gives_searchCandidates_walk {options : QueryOptions} {keys : List IndexKey}
    (unused : (options.fastQuery && !keys.isEmpty) = false) (connector : Connector)
    (reach : Window) (node : NodeId) {test : NodeId → Reading (Option Context)}
    (tests : ∀ node, (test node).IsSteady) :
    Gives (searchCandidates view options connector reach keys node test)
      ((view.candidates connector node reach).result.findSome?
        fun candidate => (test candidate).result) := by
  unfold searchCandidates
  rw [unused]
  exact gives_start_search steady tests connector node reach

/-- A longer chain matches along the first candidate from which its rest matches. -/
theorem matchIn_link (segment : Segment) (connector : Connector) (rest : Chain)
    (context : Context) :
    ((link segment connector rest).matchIn view default context).result =
      if (segment.predicate.holds view context).result then
        (view.candidates connector context.current segment.reach).result.findSome?
          fun candidate => (rest.matchIn view default (context.push candidate)).result
      else none := by
  refine Gives.result_eq ((steady.predicate context segment.predicate).gives.bind ?_)
  cases (segment.predicate.holds view context).result with
  | false => exact .pure none
  | true =>
      have unused : ((default : QueryOptions).fastQuery &&
          !(connectionKeys connector segment.reach rest).isEmpty) = false := rfl
      exact gives_searchCandidates_walk steady unused connector segment.reach context.current
        fun candidate => steady.matchIn default rest (context.push candidate)

/-- Where a match starts. -/
theorem matchContext_result (options : QueryOptions) (chain : Chain) (node : NodeId) :
    (chain.matchContext view options node).result =
      (chain.matchIn view options
        (.single (if chain.isRootAnchored then view.root.result.getD node else node))).result := by
  unfold matchContext
  cases chain.isRootAnchored with
  | false => exact (gives_matchIn steady options chain _).result_eq
  | true =>
      have start : Gives (pure (view.root.result.getD node)) (view.root.result.getD node) :=
        .pure _
      exact Gives.result_eq
        (steady.root.gives.bind (start.bind (gives_matchIn steady options chain _)))

theorem matchNode_result (options : QueryOptions) (chain : Chain) (node : NodeId) :
    (chain.matchNode view options node).result =
      (chain.matchContext view options node).result.bind (·.get? chain.targetIndex) :=
  Gives.result_eq ((steady.matchContext options chain node).gives.map _)

/-- A query that does not start from the index tries a node and what lies below it. -/
theorem query_walk {options : QueryOptions} {chain : Chain}
    (free : chain.isRootAnchored = false) (unseeded : chain.isSeeded options = false)
    (node : NodeId) :
    (chain.query view options node).result =
      (node :: (view.descendants node).result).findSome? fun node =>
        (chain.matchNode view options node).result := by
  unfold query
  rw [free, unseeded, List.findSome?_cons]
  refine Gives.result_eq ((gives_matchNode steady options chain node).bind ?_)
  cases (chain.matchNode view options node).result with
  | some found => exact .pure _
  | none => exact gives_start_search steady (steady.matchNode options chain) _ _ _

theorem queryAll_walk {options : QueryOptions} {chain : Chain}
    (free : chain.isRootAnchored = false) (unseeded : chain.isSeeded options = false)
    (node : NodeId) :
    (chain.queryAll view options node).result =
      firstOccurrences ((node :: (view.descendants node).result).filterMap fun node =>
        (chain.matchNode view options node).result) := by
  unfold queryAll
  rw [free, unseeded, List.filterMap_cons]
  refine Gives.result_eq ((gives_matchNode steady options chain node).bind ?_)
  refine Gives.bind_of_bind
    (gives_start_collect steady (steady.matchNode options chain) _ _ _) ?_
  cases (chain.matchNode view options node).result <;> exact .pure _

/-- A query for the root alone is a match. -/
theorem query_anchored {chain : Chain} (anchored : chain.isRootAnchored = true)
    (options : QueryOptions) (node : NodeId) :
    (chain.query view options node).result = (chain.matchNode view options node).result := by
  unfold query
  rw [anchored]
  exact (gives_matchNode steady options chain node).result_eq

theorem queryAll_anchored {chain : Chain} (anchored : chain.isRootAnchored = true)
    (options : QueryOptions) (node : NodeId) :
    (chain.queryAll view options node).result =
      (chain.matchNode view options node).result.toList := by
  unfold queryAll
  rw [anchored]
  exact Gives.result_eq ((gives_matchNode steady options chain node).map _)

end Chain

end TreeSelector

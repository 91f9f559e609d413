import TreeSelector.Proofs.Matching.IndexKeys
import TreeSelector.Proofs.Matching.Searched
import TreeSelector.Proofs.Reading.Direct

/-!
# Fast paths

On a host that serves a captured tree, whatever was detached from it, looking
nodes up by key never changes what a selector finds: the nodes that are passed
over could not have matched, and the others are tried in the same order.
-/

namespace TreeSelector

open Reading (Gives)

section Filters

variable {α β : Type} {items : List α} {keep : α → Bool} {test : α → Option β}

/-- Nothing is lost by passing over what the test rejects. -/
theorem filterMap_filter_of_rejected
    (rejected : ∀ item ∈ items, keep item = false → test item = none) :
    (items.filter keep).filterMap test = items.filterMap test := by
  rw [List.filterMap_filter]
  refine List.filterMap_congr fun item member => ?_
  cases kept : keep item with
  | true => rfl
  | false => exact (rejected item member kept).symm

theorem findSome?_filter_of_rejected
    (rejected : ∀ item ∈ items, keep item = false → test item = none) :
    (items.filter keep).findSome? test = items.findSome? test := by
  rw [← List.head?_filterMap, filterMap_filter_of_rejected rejected, List.head?_filterMap]

end Filters

namespace Host

variable {host : Host}

/-- Whether or not there is an index, what is found are the reachable nodes that
answer to one of the keys, in pre-order. -/
theorem IsPlain.find_result (plain : host.IsPlain) (node : NodeId) (keys : List IndexKey) :
    (host.directView.find node keys).result =
      (host.reachable node).filter (host.answersTo · keys) := by
  have steady := host.directView_isSteady
  have lookUp := (host.gives_lookUp node keys).result_eq
  cases answer : (host.directView.lookUp node keys).result with
  | none =>
      rw [(gives_find_of_lookUp_none steady answer).result_eq, plain.descendants_eq]
      refine List.filter_congr fun node _ => ?_
      rw [(plain.gives_answersTo node keys).result_eq]
  | some found =>
      rw [(gives_find_of_lookUp_some steady answer).result_eq]
      rw [answer] at lookUp
      split at lookUp
      · unfold Host.lookUp at lookUp
        cases accessed : host.access node with
        | error error =>
            rw [accessed] at lookUp
            cases lookUp
        | ok entry =>
            rw [accessed] at lookUp
            exact Option.some.inj lookUp
      · cases lookUp

theorem IsPlain.descendants_result (plain : host.IsPlain) (node : NodeId) :
    (host.directView.descendants node).result =
      host.visit maxDescendants (host.visibleChildren node) :=
  (List.cons.inj (plain.descendants_eq node)).2

/-- No walk below a node comes back to it. -/
theorem IsPlain.ne_of_mem_descendants (plain : host.IsPlain) (follow : host.ChildrenFollow)
    {node descendant : NodeId}
    (below : descendant ∈ (host.directView.descendants node).result) : descendant ≠ node := by
  rw [plain.descendants_result] at below
  have later := lt_of_mem_visit follow (follow node) descendant below
  exact Nat.ne_of_gt later

end Host

namespace Chain

/-- A query that starts from the index has keys to look up. -/
theorem indexKeys_ne_nil_of_isSeeded {chain : Chain} {options : QueryOptions}
    (seeded : chain.isSeeded options = true) : chain.indexKeys ≠ [] := by
  intro none
  simp [isSeeded, soleKey?, none] at seeded

variable {host : Host} (plain : host.IsPlain)

include plain

/-- A node that does not answer to the keys of a chain is none from which it matches. -/
theorem matchIn_eq_none_of_keys (options : QueryOptions) (chain : Chain) (context : Context)
    (keyed : chain.indexKeys ≠ [])
    (unanswered : host.answersTo context.current chain.indexKeys = false) :
    (chain.matchIn host.directView options context).result = none := by
  have steady := host.directView_isSteady
  refine matchIn_eq_none steady options chain context ?_
  cases holds : (chain.head.predicate.holds host.directView context).result with
  | false => rfl
  | true =>
      have answers := answersTo_of_holds steady chain.head.predicate keyed holds
      rw [(plain.gives_answersTo _ _).result_eq] at answers
      exact absurd answers (Bool.eq_false_iff.mp unanswered)

/-- A search along a connector succeeds at the same node with and without the index,
provided that the test rejects what does not answer to the keys. -/
theorem gives_searchCandidates (follow : host.ChildrenFollow) (options : QueryOptions)
    (connector : Connector) (reach : Window) (rest : Chain) (node : NodeId)
    {test : NodeId → Reading (Option Context)} (tests : ∀ node, (test node).IsSteady)
    (rejected : ∀ candidate, rest.indexKeys ≠ [] →
      host.answersTo candidate rest.indexKeys = false → (test candidate).result = none) :
    Gives
      (searchCandidates host.directView options connector reach
        (connectionKeys connector reach rest) node test)
      ((host.directView.candidates connector node reach).result.findSome?
        fun candidate => (test candidate).result) := by
  have steady := host.directView_isSteady
  cases used : options.fastQuery && !(connectionKeys connector reach rest).isEmpty with
  | false => exact gives_searchCandidates_walk steady used connector reach node tests
  | true =>
      have keyed : connectionKeys connector reach rest ≠ [] := by
        rintro none
        simp [none] at used
      unfold connectionKeys at keyed
      split at keyed
      · rename_i plainly
        obtain ⟨rfl, rfl⟩ := plainly
        have keys : connectionKeys .descendant .unbounded rest = rest.indexKeys := rfl
        -- the candidates that answer are all that is below, the rest apart
        have others : ((host.reachable node).filter (host.answersTo · rest.indexKeys)).filter
            (· ≠ node) =
              (host.directView.descendants node).result.filter
                (host.answersTo · rest.indexKeys) := by
          have different : (host.directView.descendants node).result.filter (· ≠ node) =
              (host.directView.descendants node).result :=
            List.filter_eq_self.mpr fun descendant below => by
              simpa using plain.ne_of_mem_descendants follow below
          rw [List.filter_comm, ← plain.descendants_eq, List.filter_cons,
            if_neg (by simp), different]
        unfold searchCandidates
        rw [used, keys]
        refine (steady.find node rest.indexKeys).gives.bind ?_
        rw [plain.find_result, others]
        have found := gives_searchAmong tests
          ((host.directView.descendants node).result.filter
            (host.answersTo · rest.indexKeys))
        rwa [findSome?_filter_of_rejected fun candidate _ => rejected candidate keyed]
          at found
      · exact absurd rfl keyed

/-- Matching along a chain gives the same context with and without the index. -/
theorem matchIn_options (follow : host.ChildrenFollow) (options : QueryOptions)
    (chain : Chain) (context : Context) :
    (chain.matchIn host.directView options context).result =
      (chain.matchIn host.directView default context).result := by
  have steady := host.directView_isSteady
  induction chain generalizing context with
  | last segment => rw [matchIn_last steady, matchIn_last steady]
  | link segment connector rest hypothesis =>
      rw [matchIn_link steady]
      refine Gives.result_eq ((steady.predicate context segment.predicate).gives.bind ?_)
      cases (segment.predicate.holds host.directView context).result with
      | false => exact .pure none
      | true =>
          have along := gives_searchCandidates plain follow options connector segment.reach
            rest context.current
            (fun candidate => steady.matchIn options rest (context.push candidate))
            fun candidate keyed => matchIn_eq_none_of_keys plain options rest
              (context.push candidate) keyed
          simp only [hypothesis] at along
          exact along

theorem matchContext_options (follow : host.ChildrenFollow) (options : QueryOptions)
    (chain : Chain) (node : NodeId) :
    (chain.matchContext host.directView options node).result =
      (chain.matchContext host.directView default node).result := by
  rw [matchContext_result host.directView_isSteady, matchContext_result host.directView_isSteady,
    matchIn_options plain follow]

theorem matchNode_options (follow : host.ChildrenFollow) (options : QueryOptions)
    (chain : Chain) (node : NodeId) :
    (chain.matchNode host.directView options node).result =
      (chain.matchNode host.directView default node).result := by
  rw [matchNode_result host.directView_isSteady, matchNode_result host.directView_isSteady,
    matchContext_options plain follow]

/-- A chain that may start anywhere does not match from a node that does not answer to
its keys. -/
theorem matchNode_eq_none_of_keys {chain : Chain} (free : chain.isRootAnchored = false)
    (options : QueryOptions) (node : NodeId) (keyed : chain.indexKeys ≠ [])
    (unanswered : host.answersTo node chain.indexKeys = false) :
    (chain.matchNode host.directView options node).result = none := by
  rw [matchNode_result host.directView_isSteady, matchContext_result host.directView_isSteady,
    free, if_neg (by decide), matchIn_eq_none_of_keys plain options chain _ keyed unanswered]
  rfl

theorem query_options (follow : host.ChildrenFollow) (options : QueryOptions)
    (chain : Chain) (node : NodeId) :
    (chain.query host.directView options node).result =
      (chain.query host.directView default node).result := by
  have steady := host.directView_isSteady
  cases anchored : chain.isRootAnchored with
  | true =>
      rw [query_anchored steady anchored, query_anchored steady anchored,
        matchNode_options plain follow]
  | false =>
      have unseeded : chain.isSeeded default = false := rfl
      rw [query_walk steady anchored unseeded]
      simp only [← matchNode_options plain follow options]
      cases seeded : chain.isSeeded options with
      | false => exact query_walk steady anchored seeded node
      | true =>
          have keyed := indexKeys_ne_nil_of_isSeeded seeded
          unfold query
          rw [anchored, seeded]
          refine Gives.result_eq ((steady.find node chain.indexKeys).gives.bind ?_)
          rw [plain.find_result, plain.descendants_eq]
          have found := gives_searchAmong (steady.matchNode options chain)
            ((host.reachable node).filter (host.answersTo · chain.indexKeys))
          rwa [findSome?_filter_of_rejected fun start _ =>
            matchNode_eq_none_of_keys plain anchored options start keyed] at found

theorem queryAll_options (follow : host.ChildrenFollow) (options : QueryOptions)
    (chain : Chain) (node : NodeId) :
    (chain.queryAll host.directView options node).result =
      (chain.queryAll host.directView default node).result := by
  have steady := host.directView_isSteady
  cases anchored : chain.isRootAnchored with
  | true =>
      rw [queryAll_anchored steady anchored, queryAll_anchored steady anchored,
        matchNode_options plain follow]
  | false =>
      have unseeded : chain.isSeeded default = false := rfl
      rw [queryAll_walk steady anchored unseeded]
      simp only [← matchNode_options plain follow options]
      cases seeded : chain.isSeeded options with
      | false => exact queryAll_walk steady anchored seeded node
      | true =>
          have keyed := indexKeys_ne_nil_of_isSeeded seeded
          unfold queryAll
          rw [anchored, seeded]
          refine Gives.result_eq ((steady.find node chain.indexKeys).gives.bind ?_)
          rw [plain.find_result, plain.descendants_eq]
          have found := gives_collectAmong (steady.matchNode options chain)
            ((host.reachable node).filter (host.answersTo · chain.indexKeys))
          rw [filterMap_filter_of_rejected fun start _ =>
            matchNode_eq_none_of_keys plain anchored options start keyed] at found
          exact found.map _

omit plain

/-- Whatever was detached from a captured tree, wherever a query starts, and whether or
not its host has an index, the options change none of what a selector finds. -/
theorem answers_eq_default (root : CapturedNode) (gone : List NodeId) (indexed : Bool)
    (chain : Chain) (options : QueryOptions) (node : NodeId) (session session' : Session) :
    let view := (Host.serving root gone indexed).directView
    (chain.query view options node).answer session =
        (chain.query view default node).answer session' ∧
      (chain.queryAll view options node).answer session =
        (chain.queryAll view default node).answer session' ∧
      (chain.matchNode view options node).answer session =
        (chain.matchNode view default node).answer session' := by
  intro view
  have steady : view.IsSteady := Host.directView_isSteady _
  have plain := Host.serving_isPlain root gone indexed
  have follow := Host.serving_childrenFollow root gone indexed
  refine ⟨?_, ?_, ?_⟩
  · rw [(steady.query options chain node).gives session,
      (steady.query default chain node).gives session']
    exact query_options plain follow options chain node
  · rw [(steady.queryAll options chain node).gives session,
      (steady.queryAll default chain node).gives session']
    exact queryAll_options plain follow options chain node
  · rw [(steady.matchNode options chain node).gives session,
      (steady.matchNode default chain node).gives session']
    exact matchNode_options plain follow options chain node

end Chain

end TreeSelector

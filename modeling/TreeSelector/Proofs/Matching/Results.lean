import TreeSelector.Grammar.Selector
import TreeSelector.Proofs.Matching.Trails

/-!
# What a selector finds

On a host that serves a captured tree, matching finds the first trail from a node,
or from the root for a chain that accepts nothing else.  A query collects the target
nodes of such trails from a node and what lies below it.
-/

namespace TreeSelector

namespace Host

variable {host : Host}

/-- The root can be read as long as it was not detached. -/
theorem IsPlain.root_getD (plain : host.IsPlain) (node : NodeId) :
    host.directView.root.result.getD node = if host.isLive 0 then 0 else node := by
  have rooted : host.directView.root = Reading.ask host.root := by
    change host.readRoot = _
    unfold readRoot
    rw [plain.rooted]
    rfl
  rw [rooted, (Reading.gives_ask _).result_eq]
  unfold root isLive
  cases host.access 0 <;> rfl

end Host

namespace Chain

/-- The node from which a chain is matched. -/
def startNode (chain : Chain) (host : Host) (node : NodeId) : NodeId :=
  if chain.isRootAnchored && host.isLive 0 then 0 else node

variable {host : Host} (plain : host.IsPlain)

include plain

theorem matchContext_start (chain : Chain) (node : NodeId) :
    (chain.matchContext host.directView default node).result =
      (chain.matchIn host.directView default (.single (chain.startNode host node))).result := by
  rw [matchContext_result host.directView_isSteady, plain.root_getD, startNode]
  cases chain.isRootAnchored <;> rfl

theorem matchContext_eq_some_iff (chain : Chain) (node : NodeId) (context : Context) :
    (chain.matchContext host.directView default node).result = some context ↔
      ∃ nodes, context.toList = (chain.startNode host node :: nodes).reverse ∧
        FirstTrail host.directView chain (.single (chain.startNode host node)) nodes := by
  rw [matchContext_start plain, matchIn_eq_some_iff host.directView_isSteady]
  refine exists_congr fun nodes => and_congr_left fun _ => ?_
  have visited := Context.toList_foldl_push (.single (chain.startNode host node)) nodes
  rw [List.reverse_cons]
  constructor
  · rintro rfl
    exact visited
  · intro same
    exact Context.eq_of_toList_eq (same.trans visited.symm)

theorem matchNode_of_firstTrail {chain : Chain} {node : NodeId} {nodes : List NodeId}
    (first : FirstTrail host.directView chain (.single (chain.startNode host node)) nodes) :
    (chain.matchNode host.directView default node).result =
      (chain.startNode host node :: nodes)[chain.targetPosition]? := by
  have visited := Context.toList_foldl_push (.single (chain.startNode host node)) nodes
  have matched := (matchContext_eq_some_iff plain chain node
    (nodes.foldl Context.push (.single (chain.startNode host node)))).mpr
      ⟨nodes, by rw [visited, List.reverse_cons]; rfl, first⟩
  rw [matchNode_result host.directView_isSteady, matched]
  refine get?_targetIndex ?_ first.trail.length_eq
  rw [visited, List.reverse_cons]
  rfl

theorem matchContext_ne_none_iff (chain : Chain) (node : NodeId) :
    (chain.matchContext host.directView default node).result ≠ none ↔
      ∃ nodes, Trail host.directView chain (.single (chain.startNode host node)) nodes := by
  constructor
  · intro some
    obtain ⟨final, equal⟩ := Option.ne_none_iff_exists'.mp some
    obtain ⟨nodes, _, first⟩ := (matchContext_eq_some_iff plain chain node final).mp equal
    exact ⟨nodes, first.trail⟩
  · rintro ⟨nodes, trail⟩
    rw [matchContext_start plain]
    exact matchIn_ne_none host.directView_isSteady trail

/-- The target of a match is one of the nodes of its trail. -/
theorem matchNode_eq_target {chain : Chain} {node : NodeId} {nodes : List NodeId}
    (first : FirstTrail host.directView chain (.single (chain.startNode host node)) nodes) :
    ∃ target, (chain.startNode host node :: nodes)[chain.targetPosition]? = some target ∧
      (chain.matchNode host.directView default node).result = some target := by
  have inside : chain.targetPosition < (chain.startNode host node :: nodes).length := by
    rw [List.length_cons, first.trail.length_eq]
    exact chain.targetPosition_lt
  refine ⟨_, List.getElem?_eq_getElem inside, ?_⟩
  rw [matchNode_of_firstTrail plain first]
  exact List.getElem?_eq_getElem inside

omit plain

theorem matchNode_eq_none {chain : Chain} {node : NodeId}
    (none : (chain.matchContext host.directView default node).result = none) :
    (chain.matchNode host.directView default node).result = .none := by
  rw [matchNode_result host.directView_isSteady, none]
  rfl

include plain

theorem filterMap_reachable {α : Type} (node : NodeId) (test : NodeId → Option α) :
    (host.reachable node).filterMap test =
      (node :: (host.directView.descendants node).result).filterMap test := by
  rw [plain.descendants_eq]

/-- Without an index to seed it, a query goes through all nodes below in order. -/
theorem queries_of_unanchored {chain : Chain} (free : chain.isRootAnchored = false)
    (node : NodeId) :
    let targets := (host.reachable node).filterMap fun node =>
      (chain.matchNode host.directView default node).result
    (chain.queryAll host.directView default node).result = firstOccurrences targets ∧
      (chain.query host.directView default node).result = (firstOccurrences targets).head? := by
  intro targets
  have steady := host.directView_isSteady
  have unseeded : chain.isSeeded default = false := rfl
  have items := filterMap_reachable plain node fun node =>
    (chain.matchNode host.directView default node).result
  constructor
  · rw [queryAll_walk steady free unseeded node, ← items]
  · rw [query_walk steady free unseeded, head?_firstOccurrences, ← List.head?_filterMap, ← items]

omit plain

/-- Matching finds the first trail from the start node if there is any trail; the target
of a match is the node of the marked segment; and a query finds the targets of the
matches from a node and from what lies below it, each once and in the order in which
they first occur. -/
theorem finds_first_trails (root : CapturedNode) (gone : List NodeId) (indexed : Bool)
    (chain : Chain) (node : NodeId) (session : Session) :
    let host := Host.serving root gone indexed
    let view := host.directView
    let start := chain.startNode host node
    let all := (chain.queryAll view default node).answer session
    let targets := (host.reachable node).filterMap fun node =>
      (chain.matchNode view default node).answer session
    (∀ context, (chain.matchContext view default node).answer session = some context ↔
        ∃ nodes, context.toList = (start :: nodes).reverse ∧
          FirstTrail view chain (.single start) nodes) ∧
      ((chain.matchContext view default node).answer session ≠ none ↔
        ∃ nodes, Trail view chain (.single start) nodes) ∧
      (∀ nodes, FirstTrail view chain (.single start) nodes →
        ∃ target, (start :: nodes)[chain.targetPosition]? = some target ∧
          (chain.matchNode view default node).answer session = some target) ∧
      ((chain.matchContext view default node).answer session = none →
        (chain.matchNode view default node).answer session = none) ∧
      (chain.isRootAnchored = false →
        all.Nodup ∧ (∀ item, item ∈ all ↔ item ∈ targets) ∧
          (∀ item item', all.idxOf item < all.idxOf item' ↔
            targets.idxOf item < targets.idxOf item') ∧
          (chain.query view default node).answer session = all.head?) := by
  intro host view start all targets
  have steady : view.IsSteady := host.directView_isSteady
  have plain : host.IsPlain := Host.serving_isPlain root gone indexed
  have context := (steady.matchContext default chain node).gives session
  have matched := fun node => (steady.matchNode default chain node).gives session
  have found := (steady.query default chain node).gives session
  have collected := (steady.queryAll default chain node).gives session
  refine ⟨?_, ?_, ?_, ?_, ?_⟩
  · intro final
    rw [context]
    exact matchContext_eq_some_iff plain chain node final
  · rw [context]
    exact matchContext_ne_none_iff plain chain node
  · intro nodes first
    rw [matched]
    exact matchNode_eq_target plain first
  · rw [context, matched]
    exact matchNode_eq_none
  · intro free
    obtain ⟨whole, head⟩ := queries_of_unanchored plain free node
    have items : targets = (host.reachable node).filterMap fun node =>
        (chain.matchNode view default node).result :=
      List.filterMap_congr fun other _ => matched other
    have same : all = firstOccurrences targets := by
      rw [items]
      exact collected.trans whole
    have first : (chain.query view default node).answer session =
        (firstOccurrences targets).head? := by
      rw [items]
      exact found.trans head
    rw [same]
    exact ⟨nodup_firstOccurrences targets, fun item => mem_firstOccurrences,
      fun item item' => idxOf_firstOccurrences_lt_iff item item' targets, first⟩

section Panels

/-- Two panels with one item each, the second of which is a button. -/
def twoPanels : CapturedNode :=
  .node {} [.node {} [.node {} []], .node {} [.node { text := some "Skip" } []]]

/-- The button in a panel with one item of a pair of panels. -/
def skipOfPair : Chain :=
  let hasChildren (count : Int32) : Segment :=
    ⟨false, .compare ⟨.reference (.known .childCount) .nowhere, .equal,
      .integer count .nowhere, .nowhere⟩, none, .nowhere⟩
  .link (hasChildren 2) .child <| .link (hasChildren 1) .child <|
    .last ⟨true, .compare ⟨.reference (.known .text) .nowhere, .equal,
      .text "Skip" none .nowhere, .nowhere⟩, none, .nowhere⟩

/-- Matching goes into the first panel in vain and takes the trail through the second. -/
theorem finds_first_trails_skipOfPair :
    let view := (Host.serving twoPanels [] true).directView
    skipOfPair.isRootAnchored = false ∧
      FirstTrail view skipOfPair (.single 0) [3, 4] ∧
      (skipOfPair.matchNode view default 0).answer (.fresh 0) = some 4 ∧
      ((skipOfPair.queryAll view default 0).answer (.fresh 0)).Nodup ∧
      (skipOfPair.query view default 0).answer (.fresh 0) = some 4 := by
  intro view
  obtain ⟨contexts, _, targets, _, results⟩ :=
    finds_first_trails twoPanels [] true skipOfPair 0 (.fresh 0)
  have matched : (skipOfPair.matchContext view default 0).answer (.fresh 0) =
      some (((Context.single 0).push 3).push 4) := by
    decide +kernel
  obtain ⟨nodes, path, first⟩ := (contexts _).mp matched
  have start : skipOfPair.startNode (Host.serving twoPanels [] true) 0 = 0 := by decide +kernel
  rw [start] at path first targets
  obtain rfl : nodes = [3, 4] := by
    have reversed := congrArg List.reverse path
    rw [List.reverse_reverse] at reversed
    exact (List.cons.inj reversed).2.symm
  obtain ⟨target, placed, found⟩ := targets [3, 4] first
  obtain rfl : target = 4 := by
    have marked : skipOfPair.targetPosition = 2 := by decide +kernel
    rw [marked] at placed
    exact (Option.some.inj placed).symm
  have free : skipOfPair.isRootAnchored = false := by decide +kernel
  obtain ⟨distinct, _, _, head⟩ := results free
  have all : ((skipOfPair.queryAll view default 0).answer (.fresh 0)).head? = some 4 := by
    decide +kernel
  exact ⟨free, first, found, distinct, head.trans all⟩

end Panels

/-- A chain for the root alone is not always matched from the root: once the root was
detached, it is matched from the node that was asked for. -/
theorem match_beside_detached_root :
    ¬ ∀ (source : String) (chain : Chain) (root : CapturedNode) (gone : List NodeId)
      (indexed : Bool) (node : NodeId) (context : Context) (session : Session),
      parse source = .ok chain → chain.isRootAnchored = true →
        (chain.matchContext (Host.serving root gone indexed).directView default node).answer
          session = some context → context.toList.getLast? = some 0 := by
  intro always
  let orphan : Chain := .last
    ⟨false, .compare ⟨.reference (.known .parent) ⟨1, 7⟩, .equal, .null ⟨8, 12⟩, ⟨1, 12⟩⟩,
      none, ⟨0, 13⟩⟩
  have parsed : parse "[parent=null]" = .ok orphan := by decide +kernel
  have atRoot := always "[parent=null]" orphan (.node {} [.node {} []]) [0] true 1 (.single 1)
    (.fresh 0) parsed (by decide +kernel) (by decide +kernel)
  exact absurd atRoot (by decide)

end Chain

end TreeSelector

import TreeSelector.Proofs.Matching.Walkers
import TreeSelector.Proofs.Reading.Direct
import TreeSelector.Proofs.Tree.Subtrees

/-!
# Matching without descents

A chain that is not reported as slow is matched without walking over descendants if the host
answers from its index: whatever such a walk would do instead, nothing changes, so none is
begun and none is followed.  The index answers for every node of the tree, and only nodes of
the tree are ever reached.
-/

namespace TreeSelector

namespace Reading

variable {α β : Type} {holds : α → Prop}

/-- What follows on a reading matters for its possible answers only. -/
theorem Ensures.bind_congr {reading : Reading α} {next next' : α → Reading β}
    (ensures : Ensures holds reading) (same : ∀ value, holds value → next value = next' value) :
    reading >>= next = reading >>= next' := by
  funext session
  exact congrFun (same _ (ensures session)) _

variable {test test' : NodeId → Reading (Option α)} {nodes : List NodeId}

theorem searchAmong_congr (same : ∀ node ∈ nodes, test node = test' node) :
    View.searchAmong test nodes = View.searchAmong test' nodes := by
  induction nodes with
  | nil => rfl
  | cons node nodes hypothesis =>
      obtain ⟨here, later⟩ := List.forall_mem_cons.mp same
      rw [View.searchAmong, View.searchAmong, here, hypothesis later]

theorem collectAmong_congr (same : ∀ node ∈ nodes, test node = test' node) :
    View.collectAmong test nodes = View.collectAmong test' nodes := by
  induction nodes with
  | nil => rfl
  | cons node nodes hypothesis =>
      obtain ⟨here, later⟩ := List.forall_mem_cons.mp same
      rw [View.collectAmong, View.collectAmong, here, hypothesis later]

end Reading

open Reading (Ensures Gives)

namespace Host

variable {host : Host}

theorem isLive_iff_access {node : NodeId} :
    host.isLive node = true ↔ ∃ entry, host.access node = .ok entry := by
  unfold isLive
  cases host.access node <;> simp [Except.toBool]

theorem IsConsistent.isLive_of_child (consistent : host.IsConsistent) {parent child : NodeId}
    {index : Nat} (produced : host.child parent index = .ok (some child)) :
    host.isLive child = true := by
  obtain ⟨entry, accessed, _⟩ := parent_eq_ok_iff.mp (consistent.parent_of_child produced)
  exact isLive_iff_access.mpr ⟨entry, accessed⟩

theorem IsConsistent.isLive_of_parent (consistent : host.IsConsistent) {child parent : NodeId}
    (answered : host.parent child = .ok (some parent)) : host.isLive parent = true := by
  obtain ⟨index, produced⟩ := consistent.child_of_parent answered
  obtain ⟨entry, accessed, _⟩ := child_eq_ok_iff.mp produced
  exact isLive_iff_access.mpr ⟨entry, accessed⟩

/-- A host on which only nodes that can be accessed are reached, and which answers from its
index. -/
structure IsIndexed (host : Host) : Prop where
  plain : host.IsPlain
  consistent : host.IsConsistent
  indexed : host.indexed = true

theorem serving_isIndexed (root : CapturedNode) : (serving root [] true).IsIndexed :=
  ⟨serving_isPlain root [] true, serving_isConsistent root true, rfl⟩

namespace IsIndexed

variable (ready : host.IsIndexed)

include ready

/-- The index answers for a node that can be accessed, with nodes that can be accessed. -/
theorem lookUp_ensures {node : NodeId} (live : host.isLive node = true) (keys : List IndexKey) :
    Ensures (fun found => ∃ nodes, found = some nodes ∧ ∀ node ∈ nodes, host.isLive node = true)
      (host.directView.lookUp node keys) := by
  intro session
  obtain ⟨entry, accessed⟩ := isLive_iff_access.mp live
  rw [host.gives_lookUp node keys session, if_pos ready.indexed]
  refine ⟨(host.reachable node).filter (host.answersTo · keys), ?_, ?_⟩
  · rw [lookUp, accessed]
    rfl
  · intro found member
    have answers := (List.mem_filter.mp member).2
    cases reached : host.access found with
    | error error =>
        rw [answersTo, reached] at answers
        cases answers
    | ok entry => exact isLive_iff_access.mpr ⟨entry, reached⟩

theorem find_ensures {node : NodeId} (live : host.isLive node = true) (keys : List IndexKey) :
    Ensures (fun found => ∀ node ∈ found, host.isLive node = true)
      (host.directView.find node keys) := by
  refine (ready.lookUp_ensures live keys).bind ?_
  rintro _ ⟨nodes, rfl, live⟩
  exact .pure live

theorem parent_ensures (node : NodeId) :
    Ensures (fun found => ∀ parent ∈ found, host.isLive parent = true)
      (host.directView.parent node) := by
  have gives : Gives (host.directView.parent node) (host.parent node).toOption.join :=
    (Reading.gives_ask _).map _
  refine gives.ensures fun parent answered => ?_
  exact ready.consistent.isLive_of_parent (eq_ok_of_join_eq_some answered)

theorem child_ensures (node : NodeId) (index : Nat) :
    Ensures (fun found => ∀ child ∈ found, host.isLive child = true)
      (host.directView.child node index) := by
  refine (ready.plain.gives_child node index).ensures fun child produced => ?_
  exact ready.consistent.isLive_of_child (eq_ok_of_join_eq_some produced)

theorem root_ensures :
    Ensures (fun found => ∀ root ∈ found, host.isLive root = true) host.directView.root := by
  have gives : Gives host.directView.root host.root.toOption := by
    change Gives host.readRoot _
    rw [readRoot, ready.plain.rooted]
    exact Reading.gives_ask _
  refine gives.ensures fun root rooted => ?_
  cases accessed : host.access 0 with
  | error error =>
      rw [Host.root, accessed] at rooted
      cases rooted
  | ok entry =>
      rw [Host.root, accessed] at rooted
      rw [← Option.some.inj rooted]
      exact isLive_iff_access.mpr ⟨entry, accessed⟩

end IsIndexed

end Host

namespace Host.IsIndexed

variable {host : Host} (ready : host.IsIndexed)

include ready

theorem look_ensures {route : Route} (beside : route.isBelow = false) (offset : Nat) :
    Ensures (fun stop => (∀ route ∈ stop.onward, route.isBelow = false) ∧
        ∀ node route, stop = .reached node route → host.isLive node = true)
      (route.look host.directView offset) := by
  have positional : ∀ (route : Route) (parent : NodeId) (index : Nat), route.isBelow = false →
      Ensures (fun stop => (∀ route ∈ stop.onward, route.isBelow = false) ∧
          ∀ node route, stop = .reached node route → host.isLive node = true)
        (do return route.tried (← host.directView.child parent index)) := by
    intro route parent index beside
    refine (ready.child_ensures parent index).bind fun found reached => .pure ⟨?_, ?_⟩
    · rw [Route.onward_tried]
      rintro _ ⟨⟩
      exact beside
    · rintro node route' same
      cases found with
      | none => cases same
      | some child =>
          cases same
          exact reached _ rfl
  cases route with
  | forward parent origin => exact positional _ parent _ rfl
  | backward parent origin => exact positional _ parent _ rfl
  | children parent => exact positional _ parent _ rfl
  | upward current =>
      refine (ready.parent_ensures current).bind fun found reached => ?_
      cases found with
      | none => exact .pure ⟨nofun, nofun⟩
      | some parent =>
          refine .pure ⟨?_, ?_⟩
          · rintro _ ⟨⟩
            rfl
          · rintro _ _ ⟨⟩
            exact reached parent rfl
  | below stack => cases beside

/-- A walk that does not go over descendants reaches nodes that can be accessed, and goes on
as it does. -/
theorem pull_ensures (lower : Nat) {route : Route} (beside : route.isBelow = false)
    (offset left : Nat) :
    Ensures (fun found => ∀ next ∈ found,
        host.isLive next.1 = true ∧ next.2.route.isBelow = false)
      (Walk.pull host.directView lower route offset left) := by
  induction left generalizing route offset with
  | zero => exact .pure nofun
  | succ left hypothesis =>
      refine (ready.look_ensures beside offset).bind fun stop looked => ?_
      obtain ⟨onwards, reached⟩ := looked
      cases stop with
      | ended => exact .pure nofun
      | skipped route => exact hypothesis (onwards route rfl) (offset + 1)
      | reached node route =>
          dsimp only
          split
          · exact hypothesis (onwards route rfl) (offset + 1)
          · refine .pure ?_
            rintro _ ⟨⟩
            exact ⟨reached node route rfl, onwards route rfl⟩

omit ready in
/-- A walk over another connector does not go over descendants, unless it goes nowhere. -/
theorem start_ensures (view : View) {connector : Connector} (other : connector ≠ .descendant)
    (node : NodeId) (window : Window) :
    Ensures (fun walk => walk.route.isBelow = false ∨ walk.left = 0)
      (Walk.start view connector node window) := by
  have brothers : connector = .beforeBrother ∨ connector = .afterBrother →
      Ensures (fun walk => walk.route.isBelow = false ∨ walk.left = 0)
        (Walk.start view connector node window) := by
    rintro (rfl | rfl)
    all_goals
      refine (Ensures.any _).bind fun parent _ => (Ensures.any _).bind fun index _ => ?_
      rcases parent with _ | parent
      · exact .pure (.inr rfl)
      rcases index with _ | origin
      · exact .pure (.inr rfl)
      exact (Ensures.any _).bind fun count _ => .pure (.inl rfl)
  cases connector with
  | beforeBrother => exact brothers (.inl rfl)
  | afterBrother => exact brothers (.inr rfl)
  | ancestor => exact .pure (.inl rfl)
  | child => exact (Ensures.any _).bind fun count _ => .pure (.inl rfl)
  | descendant => exact absurd rfl other

end Host.IsIndexed

namespace Walker.AgreesBeside

variable {host : Host} {walker : Walker} (ready : host.IsIndexed)
  (agrees : walker.AgreesBeside host.directView.walker)

include ready agrees

theorem searchUpTo_eq {α : Type} {test test' : NodeId → Reading (Option α)}
    (same : ∀ node, host.isLive node = true → test node = test' node) (count : Nat) {walk : Walk}
    (beside : walk.route.isBelow = false) :
    walker.searchUpTo test count walk = Walk.searchUpTo host.directView test' count walk := by
  induction count generalizing walk with
  | zero => rfl
  | succ count hypothesis =>
      rw [searchUpTo, Walk.searchUpTo, agrees.next walk beside]
      refine (ready.pull_ensures _ beside _ _).bind_congr fun found reached => ?_
      cases found with
      | none => rfl
      | some found =>
          obtain ⟨live, onward⟩ := reached found rfl
          dsimp only
          rw [same found.1 live]
          refine bind_congr fun answer => ?_
          cases answer with
          | none => exact hypothesis onward
          | some answer => rfl

theorem search_eq {α : Type} {test test' : NodeId → Reading (Option α)}
    (same : ∀ node, host.isLive node = true → test node = test' node) {connector : Connector}
    (other : connector ≠ .descendant) (node : NodeId) (window : Window) :
    (walker.start connector node window >>= fun walk => walker.searchUpTo test walk.left walk) =
      (Walk.start host.directView connector node window >>= fun walk =>
        walk.search host.directView test') := by
  rw [agrees.start connector other]
  refine (Host.IsIndexed.start_ensures _ other node window).bind_congr fun walk goes => ?_
  rcases goes with beside | nowhere
  · exact agrees.searchUpTo_eq ready same walk.left beside
  · rw [Walk.search, nowhere]
    rfl

omit agrees in
/-- What the index answers is found without a walk. -/
theorem find_eq (walker : Walker) {node : NodeId} (live : host.isLive node = true)
    (keys : List IndexKey) :
    walker.find host.directView node keys = host.directView.find node keys := by
  refine (ready.lookUp_ensures live keys).bind_congr ?_
  rintro _ ⟨nodes, rfl, _⟩
  rfl

end Walker.AgreesBeside

namespace Chain

variable {options : QueryOptions}

/-- Every connector to descendants is answered from the index. -/
def LooksUp (options : QueryOptions) (chain : Chain) : Prop :=
  ∀ reach rest, (.descendant, reach, rest) ∈ chain.connections →
    (options.fastQuery && !(connectionKeys .descendant reach rest).isEmpty) = true

theorem looksUp_of_isSlow {chain : Chain} (fast : chain.isSlow options = false) :
    chain.LooksUp options := by
  intro reach rest member
  have every := List.any_eq_false.mp (Bool.or_eq_false_iff.mp fast).2 _ member
  simpa only [decide_true, Bool.true_and, Bool.not_eq_true, Bool.not_eq_false'] using every

/-- A chain that may match anywhere is seeded from the index unless it is slow. -/
theorem isSeeded_of_isSlow {chain : Chain} (fast : chain.isSlow options = false)
    (free : chain.isRootAnchored = false) : chain.isSeeded options = true := by
  have seeds := (Bool.or_eq_false_iff.mp (Bool.or_eq_false_iff.mp fast).1).2
  rw [free, Bool.not_false, Bool.and_true] at seeds
  obtain ⟨looks, keyed⟩ := Bool.or_eq_false_iff.mp seeds
  have lookedUp : options.fastQuery = true := by simpa using looks
  rw [isSeeded, lookedUp, keyed]
  rfl

end Chain

namespace Walker.AgreesBeside

variable {host : Host} {walker : Walker} {options : QueryOptions} (ready : host.IsIndexed)
  (agrees : walker.AgreesBeside host.directView.walker)

include ready agrees

theorem searchCandidates_eq {α : Type} {test test' : NodeId → Reading (Option α)}
    (same : ∀ node, host.isLive node = true → test node = test' node) {connector : Connector}
    {reach : Window} {keys : List IndexKey} {node : NodeId} (live : host.isLive node = true)
    (looks : connector = .descendant → (options.fastQuery && !keys.isEmpty) = true) :
    walker.searchCandidates host.directView options connector reach keys node test =
      Chain.searchCandidates host.directView options connector reach keys node test' := by
  unfold searchCandidates Chain.searchCandidates
  cases lookedUp : options.fastQuery && !keys.isEmpty with
  | true =>
      rw [if_pos rfl, if_pos rfl, find_eq ready walker live]
      refine (ready.find_ensures live keys).bind_congr fun found reached => ?_
      exact Reading.searchAmong_congr fun other member =>
        same other (reached other (List.mem_filter.mp member).1)
  | false =>
      have other : connector ≠ .descendant := fun descends =>
        Bool.false_ne_true (lookedUp.symm.trans (looks descends))
      exact agrees.search_eq ready same other node reach

theorem matchIn_eq {chain : Chain} (looks : chain.LooksUp options) {context : Context}
    (live : host.isLive context.current = true) :
    walker.matchIn host.directView options chain context =
      chain.matchIn host.directView options context := by
  induction chain generalizing context with
  | last segment => rfl
  | link segment connector rest hypothesis =>
      have onward : rest.LooksUp options := fun reach rest member =>
        looks reach rest (List.mem_cons_of_mem _ member)
      rw [matchIn, Chain.matchIn]
      refine bind_congr fun holds => ?_
      cases holds with
      | false => rfl
      | true =>
          rw [if_pos rfl, if_pos rfl]
          refine agrees.searchCandidates_eq ready (fun node live => hypothesis onward live) live ?_
          rintro rfl
          exact looks segment.reach rest List.mem_cons_self

variable {chain : Chain} (looks : chain.LooksUp options) {node : NodeId}
  (live : host.isLive node = true)

include looks live

theorem matchContext_eq :
    walker.matchContext host.directView options chain node =
      chain.matchContext host.directView options node := by
  unfold matchContext Chain.matchContext
  cases chain.isRootAnchored with
  | true =>
      refine ready.root_ensures.bind_congr fun root rooted => ?_
      refine agrees.matchIn_eq ready looks ?_
      cases root with
      | none => exact live
      | some root => exact rooted root rfl
  | false => exact agrees.matchIn_eq ready looks live

theorem matchNode_eq :
    walker.matchNode host.directView options chain node =
      chain.matchNode host.directView options node := by
  rw [matchNode, agrees.matchContext_eq ready looks live]
  rfl

theorem query_eq (seeded : chain.isRootAnchored = false → chain.isSeeded options = true) :
    walker.query host.directView options chain node =
      chain.query host.directView options node := by
  unfold query Chain.query
  -- what is anchored is matched once; what is not is seeded, so the walk is not come to
  cases anchored : chain.isRootAnchored with
  | true =>
      rw [if_pos rfl, if_pos rfl]
      exact agrees.matchNode_eq ready looks live
  | false =>
      rw [if_neg Bool.false_ne_true, if_neg Bool.false_ne_true, if_pos (seeded anchored),
        if_pos (seeded anchored), find_eq ready walker live]
      refine (ready.find_ensures live _).bind_congr fun found reached => ?_
      exact Reading.searchAmong_congr fun other member =>
        agrees.matchNode_eq ready looks (reached other member)

theorem queryAll_eq (seeded : chain.isRootAnchored = false → chain.isSeeded options = true) :
    walker.queryAll host.directView options chain node =
      chain.queryAll host.directView options node := by
  unfold queryAll Chain.queryAll
  cases anchored : chain.isRootAnchored with
  | true => rw [if_pos rfl, if_pos rfl, agrees.matchNode_eq ready looks live]
  | false =>
      rw [if_neg Bool.false_ne_true, if_neg Bool.false_ne_true, if_pos (seeded anchored),
        if_pos (seeded anchored), find_eq ready walker live]
      refine (ready.find_ensures live _).bind_congr fun found reached => ?_
      rw [Reading.collectAmong_congr fun other member =>
        agrees.matchNode_eq ready looks (reached other member)]

end Walker.AgreesBeside

namespace Chain

/-- However descendants would be walked over, it changes nothing about a chain that is not
reported as slow: from any node of a tree, it is matched without such a walk being begun or
followed. -/
theorem descends_nowhere (root : CapturedNode) (chain : Chain) (options : QueryOptions)
    (fast : chain.isSlow options = false) (node : NodeId)
    (inside : node < (Tree.ofCaptured root).size) (walker : Walker)
    (agrees : walker.AgreesBeside (Host.serving root [] true).directView.walker) :
    let view := (Host.serving root [] true).directView
    walker.query view options chain node = chain.query view options node ∧
      walker.queryAll view options chain node = chain.queryAll view options node ∧
      walker.matchNode view options chain node = chain.matchNode view options node := by
  intro view
  have ready := Host.serving_isIndexed root
  have live : (Host.serving root [] true).isLive node = true := by
    rw [Host.isLive_iff, Host.tree_serving]
    exact ⟨rfl, _, Array.getElem?_eq_getElem inside⟩
  have looks := looksUp_of_isSlow fast
  have seeded := isSeeded_of_isSlow fast
  exact ⟨agrees.query_eq ready looks live seeded, agrees.queryAll_eq ready looks live seeded,
    agrees.matchNode_eq ready looks live⟩

section Labelled

/-- Panels by their label, and the skip button somewhere inside. -/
def skipInPanel : Chain :=
  .link ⟨false, .compare ⟨.reference (.known .vid) .nowhere, .equal,
    .text "panel" none .nowhere, .nowhere⟩, none, .nowhere⟩ .descendant
    (.last ⟨false, .compare ⟨.reference (.known .text) .nowhere, .equal,
      .text "Skip" none .nowhere, .nowhere⟩, none, .nowhere⟩)

def panelTree : CapturedNode :=
  .node {} [.node { vid := some "panel" } [.node { text := some "Skip" } []]]

theorem skipInPanel_descends_nowhere :
    let view := (Host.serving panelTree [] true).directView
    let options : QueryOptions := ⟨false, true⟩
    skipInPanel.isSlow options = false ∧
      view.guarded.query view options skipInPanel 0 = skipInPanel.query view options 0 ∧
      (skipInPanel.query view options 0).answer (.fresh 0) = some 1 := by
  intro view options
  have fast : skipInPanel.isSlow options = false := by decide +kernel
  exact ⟨fast, (descends_nowhere panelTree skipInPanel options fast 0 (by decide +kernel)
    view.guarded view.guarded_agreesBeside).1, by decide +kernel⟩

/-- With other options the same query walks over descendants. -/
example :
    let view := (Host.serving panelTree [] true).directView
    ((view.guarded.query view default skipInPanel 0).after (.fresh 0)).broken = true := by
  decide +kernel

end Labelled

end Chain

end TreeSelector

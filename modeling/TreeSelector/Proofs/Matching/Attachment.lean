import TreeSelector.Proofs.Matching.FastPath
import TreeSelector.Proofs.Matching.Results
import TreeSelector.Proofs.Reading.Blindness
import TreeSelector.Proofs.Tree.Subtrees

/-!
# Detached candidates

Walks still hand out nodes that were detached from the tree, and whatever is asked of such
a node is answered as if nothing were there.  A chain passes them over if its head does not
hold of a node of which nothing can be read, and every further segment says something that
such a node does not fulfil or is looked for among the ancestors.
-/

namespace TreeSelector

open Reading (Gives)

namespace Predicate

/-- Whether a predicate holds of a node of which nothing can be read, if no other node was
matched before. -/
def holdsUnseen (predicate : Predicate) : Bool :=
  (predicate.holds .blind (.single 0)).result

/-- Whether a predicate says something that cannot hold of a node of which nothing can be
read, whatever was matched before. -/
def demandsPresence : Predicate → Bool
  | compare comparison =>
      !comparison.names.any Name.looksBack && !(compare comparison).holdsUnseen
  | and left right => left.demandsPresence || right.demandsPresence
  | or left right => left.demandsPresence && right.demandsPresence

variable {view : View}

/-- What a predicate says of a first node of which nothing can be read. -/
theorem gives_holdsUnseen {node : NodeId} (blind : view.IsBlindAt node) (predicate : Predicate) :
    Gives (predicate.holds view (.single node)) predicate.holdsUnseen := by
  have alike : Reading.Relates Eq (predicate.holds view (.single node))
      (predicate.holds View.blind (.single 0)) :=
    predicate.holds_relates blind (View.blind_isBlindAt 0) (.inl ⟨rfl, rfl⟩)
  obtain ⟨holds, _, gives, gives', rfl⟩ := alike
  rw [holdsUnseen, gives'.result_eq]
  exact gives

theorem gives_false_of_demandsPresence (steady : view.IsSteady) {context : Context}
    (blind : view.IsBlindAt context.current) {predicate : Predicate}
    (demands : predicate.demandsPresence = true) :
    Gives (predicate.holds view context) false := by
  induction predicate with
  | compare comparison =>
      rw [demandsPresence, Bool.and_eq_true, Bool.not_eq_true', Bool.not_eq_true'] at demands
      obtain ⟨forward, fails⟩ := demands
      have oblivious : Context.Oblivious context (.single 0) (compare comparison).names := by
        right
        rw [names_compare]
        simpa using List.any_eq_false.mp forward
      obtain ⟨holds, _, gives, gives', rfl⟩ :=
        (compare comparison).holds_relates blind (View.blind_isBlindAt 0) oblivious
      rw [holdsUnseen, gives'.result_eq] at fails
      rwa [fails] at gives
  | and left right leftFails rightFails =>
      rw [demandsPresence, Bool.or_eq_true] at demands
      refine (steady.predicate context left).gives.bind ?_
      cases holds : (left.holds view context).result with
      | false => exact .pure false
      | true =>
          rcases demands with demands | demands
          · rw [(leftFails demands).result_eq] at holds
            cases holds
          · exact rightFails demands
  | or left right leftFails rightFails =>
      rw [demandsPresence, Bool.and_eq_true] at demands
      exact (leftFails demands.1).bind (rightFails demands.2)

end Predicate

section Ancestors

open Reading (Ensures)

variable {view : View} {accepts : NodeId → Prop}
  (climbs : ∀ node, accepts node →
    Ensures (fun found => ∀ holder ∈ found, accepts holder) (view.parent node))
include climbs

theorem Walk.pull_upward (lower offset left : Nat) {current : NodeId}
    (accepted : accepts current) :
    Ensures (fun found => ∀ next ∈ found, accepts next.1 ∧ next.2.route = .upward next.1)
      (pull view lower (.upward current) offset left) := by
  induction left generalizing offset current with
  | zero => exact .pure nofun
  | succ left hypothesis =>
      have look : Ensures (fun stop => stop = .ended ∨
          ∃ holder, stop = .reached holder (.upward holder) ∧ accepts holder)
          (Route.look view offset (.upward current)) := by
        refine (climbs current accepted).bind fun found above => ?_
        cases found with
        | none => exact .pure (.inl rfl)
        | some holder => exact .pure (.inr ⟨holder, rfl, above holder rfl⟩)
      refine look.bind fun stop reached => ?_
      rcases reached with rfl | ⟨holder, rfl, above⟩
      · exact .pure nofun
      · dsimp only
        split
        · exact hypothesis (offset + 1) above
        · refine .pure ?_
          rintro _ ⟨⟩
          exact ⟨above, rfl⟩

theorem Walk.take_upward (count : Nat) {walk : Walk} {current : NodeId}
    (accepted : accepts current) (upward : walk.route = .upward current) :
    Ensures (fun nodes => ∀ node ∈ nodes, accepts node) (take view count walk) := by
  induction count generalizing walk current with
  | zero => exact .pure nofun
  | succ count hypothesis =>
      have next := pull_upward climbs walk.lower walk.offset walk.left accepted
      rw [← upward] at next
      refine next.bind fun found reached => ?_
      cases found with
      | none => exact .pure nofun
      | some found =>
          obtain ⟨above, onward⟩ := reached found rfl
          refine (hypothesis above onward).bind fun nodes others => .pure ?_
          exact List.forall_mem_cons.mpr ⟨above, others⟩

/-- What holds of the parent of each node of which it holds, holds of its ancestors. -/
theorem View.candidates_ancestor (window : Window) {node : NodeId} (accepted : accepts node) :
    Ensures (fun nodes => ∀ node ∈ nodes, accepts node)
      (view.candidates .ancestor node window) :=
  Walk.take_upward climbs _ accepted rfl

end Ancestors

namespace Chain

/-- Whether every segment behind the head says something that cannot hold of a node of which
nothing can be read, or is looked for among ancestors. -/
def staysPresent : Chain → Bool
  | last _ => true
  | link _ connector rest =>
      (connector == .ancestor || rest.head.predicate.demandsPresence) && rest.staysPresent

/-- Whether a chain is matched from the root alone, or its head does not hold of a node of
which nothing can be read. -/
def startsPresent (chain : Chain) : Bool :=
  chain.isRootAnchored || !chain.head.predicate.holdsUnseen

theorem Trail.head_holds {view : View} {chain : Chain} {context : Context} {nodes : List NodeId}
    (trail : Trail view chain context nodes) :
    (chain.head.predicate.holds view context).result = true := by
  cases trail with
  | last holds => exact holds
  | link holds => exact holds

section Trails

variable {host : Host} (plain : host.IsPlain)
include plain

theorem isLive_of_holds {context : Context} {predicate : Predicate}
    (demands : predicate.demandsPresence = true)
    (holds : (predicate.holds host.directView context).result = true) :
    host.isLive context.current = true := by
  by_contra detached
  have blind := plain.isBlindAt (Bool.not_eq_true _ ▸ detached)
  have fails := predicate.gives_false_of_demandsPresence host.directView_isSteady blind demands
  rw [fails.result_eq] at holds
  cases holds

theorem isLive_of_holds_first {node : NodeId} {predicate : Predicate}
    (fails : predicate.holdsUnseen = false)
    (holds : (predicate.holds host.directView (.single node)).result = true) :
    host.isLive node = true := by
  by_contra detached
  have blind := plain.isBlindAt (Bool.not_eq_true _ ▸ detached)
  rw [(predicate.gives_holdsUnseen blind).result_eq, fails] at holds
  cases holds

variable (upward : host.IsUpwardLive)
include upward

omit plain in
/-- The ancestors of a node that can be accessed can be accessed. -/
theorem isLive_of_mem_candidates {node candidate : NodeId} {window : Window}
    (live : host.isLive node = true)
    (member : candidate ∈ (host.directView.candidates .ancestor node window).result) :
    host.isLive candidate = true := by
  have climbs : ∀ node, host.isLive node = true →
      Reading.Ensures (fun found => ∀ holder ∈ found, host.isLive holder = true)
        (host.directView.parent node) := by
    intro node live session holder found
    have asked := (Reading.gives_ask (host.parent node)).map Option.join
    have named := (asked session).symm.trans found
    cases answer : host.parent node with
    | error error =>
        rw [answer] at named
        cases named
    | ok parent =>
        rw [answer] at named
        obtain rfl : parent = some holder := named
        exact upward node holder live answer
  exact View.candidates_ancestor climbs window live (.fresh 0) candidate member

/-- A trail goes on to nodes that can be accessed. -/
theorem Trail.isLive {chain : Chain} {context : Context} {nodes : List NodeId}
    (trail : Trail host.directView chain context nodes) (stays : chain.staysPresent = true)
    (live : host.isLive context.current = true) : ∀ node ∈ nodes, host.isLive node = true := by
  induction trail with
  | last _ => exact nofun
  | @link _ _ _ _ candidate _ _ member trail hypothesis =>
      rw [staysPresent, Bool.and_eq_true, Bool.or_eq_true, beq_iff_eq] at stays
      obtain ⟨here, onward⟩ := stays
      have reached : host.isLive candidate = true := by
        rcases here with rfl | demands
        · exact isLive_of_mem_candidates upward live member
        · exact isLive_of_holds plain demands trail.head_holds
      exact List.forall_mem_cons.mpr ⟨reached, hypothesis onward reached⟩

omit plain upward in
/-- The node from which a chain is matched can be accessed if the given one can. -/
theorem isLive_startNode (chain : Chain) {node : NodeId} (live : host.isLive node = true) :
    host.isLive (chain.startNode host node) = true := by
  unfold startNode
  split
  · rename_i rooted
    exact (Bool.and_eq_true_iff.mp rooted).2
  · exact live

theorem isLive_of_matchContext {chain : Chain} {node : NodeId} {context : Context}
    (stays : chain.staysPresent = true) (live : host.isLive (chain.startNode host node) = true)
    (matched : (chain.matchContext host.directView default node).result = some context) :
    ∀ node ∈ context.toList, host.isLive node = true := by
  obtain ⟨nodes, visited, first⟩ := (matchContext_eq_some_iff plain chain node context).mp matched
  have onward := first.trail.isLive plain upward stays live
  intro node member
  rw [visited, List.mem_reverse] at member
  rcases List.mem_cons.mp member with rfl | member
  · exact live
  · exact onward node member

omit upward in
/-- A chain matches from no node of which nothing can be read if its head holds of none. -/
theorem isLive_startNode_of_matchContext {chain : Chain} {node : NodeId} {context : Context}
    (fails : chain.head.predicate.holdsUnseen = false)
    (matched : (chain.matchContext host.directView default node).result = some context) :
    host.isLive (chain.startNode host node) = true := by
  obtain ⟨nodes, _, first⟩ := (matchContext_eq_some_iff plain chain node context).mp matched
  exact isLive_of_holds_first plain fails first.trail.head_holds

omit plain upward in
theorem exists_of_matchNode {chain : Chain} {node target : NodeId}
    (found : (chain.matchNode host.directView default node).result = some target) :
    ∃ context, (chain.matchContext host.directView default node).result = some context ∧
      target ∈ context.toList := by
  rw [matchNode_result host.directView_isSteady, Option.bind_eq_some_iff] at found
  obtain ⟨context, matched, placed⟩ := found
  exact ⟨context, matched, List.mem_of_getElem? placed⟩

/-- What a query finds can be accessed. -/
theorem isLive_of_queryAll {chain : Chain} {node target : NodeId}
    (stays : chain.staysPresent = true) (starts : chain.startsPresent = true)
    (live : host.isLive node = true)
    (found : target ∈ (chain.queryAll host.directView default node).result) :
    host.isLive target = true := by
  cases anchored : chain.isRootAnchored with
  | true =>
      rw [queryAll_anchored host.directView_isSteady anchored, Option.mem_toList] at found
      obtain ⟨context, matched, member⟩ := exists_of_matchNode found
      exact isLive_of_matchContext plain upward stays (isLive_startNode chain live) matched
        target member
  | false =>
      have fails : chain.head.predicate.holdsUnseen = false := by
        simpa [startsPresent, anchored] using starts
      rw [(queries_of_unanchored plain anchored node).1, mem_firstOccurrences,
        List.mem_filterMap] at found
      obtain ⟨start, _, found⟩ := found
      obtain ⟨context, matched, member⟩ := exists_of_matchNode found
      exact isLive_of_matchContext plain upward stays
        (isLive_startNode_of_matchContext plain fails matched) matched target member

omit upward in
/-- What a query finds is the first of all. -/
theorem query_eq_head? (chain : Chain) (node : NodeId) :
    (chain.query host.directView default node).result =
      (chain.queryAll host.directView default node).result.head? := by
  have steady := host.directView_isSteady
  cases anchored : chain.isRootAnchored with
  | true =>
      rw [query_anchored steady anchored, queryAll_anchored steady anchored]
      cases (chain.matchNode host.directView default node).result <;> rfl
  | false =>
      obtain ⟨all, first⟩ := queries_of_unanchored plain anchored node
      rw [first, all]

end Trails

/-- No node that a query from a node returns was detached, and none of the context in which
the chain matches from there. -/
structure FindsAttached (chain : Chain) (host : Host) (options : QueryOptions) (node : NodeId)
    (session : Session) : Prop where
  context : ∀ context,
    (chain.matchContext host.directView options node).answer session = some context →
      ∀ node ∈ context.toList, host.isDetached node = false
  query : ∀ target, (chain.query host.directView options node).answer session = some target →
    host.isDetached target = false
  queryAll : ∀ target ∈ (chain.queryAll host.directView options node).answer session,
    host.isDetached target = false

/-- A chain whose head holds of a node of which nothing can be read finds such a node. -/
theorem not_findsAttached {segment : Segment}
    (free : (last segment).isRootAnchored = false)
    (holds : segment.predicate.holdsUnseen = true) :
    ¬ (last segment).FindsAttached (Host.serving (.node {} [.node {} []]) [1] true) default 0
      (.fresh 0) := by
  intro attached
  have plain := Host.serving_isPlain (.node {} [.node {} []]) [1] true
  generalize served : Host.serving (.node {} [.node {} []]) [1] true = host at plain attached
  have gone : host.isLive 1 = false := by
    rw [← served]
    decide +kernel
  have handed : 1 ∈ host.reachable 0 := by
    rw [← served]
    decide +kernel
  have here : (last segment).startNode host 1 = 1 := by simp [startNode, free]
  have first : FirstTrail host.directView (last segment)
      (.single ((last segment).startNode host 1)) [] := by
    rw [here]
    refine ⟨.last ?_, ?_⟩
    · rw [(segment.predicate.gives_holdsUnseen (plain.isBlindAt gone)).result_eq, holds]
    · rintro others ⟨⟩
      exact .inl rfl
  obtain ⟨target, placed, found⟩ := matchNode_eq_target plain first
  rw [here] at placed
  obtain rfl : target = 1 := List.mem_singleton.mp (List.mem_of_getElem? placed)
  have member : 1 ∈ ((last segment).queryAll host.directView default 0).answer (.fresh 0) := by
    change 1 ∈ ((last segment).queryAll host.directView default 0).result
    rw [(queries_of_unanchored plain free 0).1, mem_firstOccurrences]
    exact List.mem_filterMap.mpr ⟨1, handed, found⟩
  have detached : host.isDetached 1 = true := by
    rw [← served]
    decide +kernel
  rw [attached.queryAll 1 member] at detached
  cases detached

/-- From a node that can be accessed, a chain matches along nodes that were not detached if
every segment behind its head says something that cannot hold of a node of which nothing can
be read, or is looked for among ancestors; and it finds nothing that was detached if, besides,
its head does not hold of such a node.  A chain of one segment whose head holds of one does
find nodes that were detached. -/
theorem finds_attached (chain : Chain) :
    (chain.staysPresent = true →
      ∀ (root : CapturedNode) (gone : List NodeId) (indexed : Bool) (options : QueryOptions)
        (node : NodeId) (session : Session),
        let host := Host.serving root gone indexed
        host.isLive node = true →
          (∀ context,
            (chain.matchContext host.directView options node).answer session = some context →
              ∀ node ∈ context.toList, host.isDetached node = false) ∧
            (chain.startsPresent = true → chain.FindsAttached host options node session)) ∧
      (chain.isLinked = false → chain.startsPresent = false →
        ∃ (root : CapturedNode) (gone : List NodeId) (node : NodeId),
          (Host.serving root gone true).isLive node = true ∧
            ¬ chain.FindsAttached (Host.serving root gone true) default node (.fresh 0)) := by
  constructor
  · intro stays root gone indexed options node session host live
    have plain : host.IsPlain := Host.serving_isPlain root gone indexed
    have upward : host.IsUpwardLive := Host.serving_isUpwardLive root gone indexed
    have follow : host.ChildrenFollow := Host.serving_childrenFollow root gone indexed
    have steady := host.directView_isSteady
    have along : ∀ context,
        (chain.matchContext host.directView options node).answer session = some context →
          ∀ node ∈ context.toList, host.isDetached node = false := by
      intro context matched node member
      rw [(steady.matchContext options chain _).gives session,
        matchContext_options plain follow] at matched
      exact (Host.isLive_iff.mp (isLive_of_matchContext plain upward stays
        (isLive_startNode chain live) matched node member)).1
    refine ⟨along, fun starts => ⟨along, ?_, ?_⟩⟩
    · intro target found
      rw [(steady.query options chain node).gives session, query_options plain follow,
        query_eq_head? plain] at found
      exact (Host.isLive_iff.mp (isLive_of_queryAll plain upward stays starts live
        (List.mem_of_head? found))).1
    · intro target found
      rw [(steady.queryAll options chain node).gives session, queryAll_options plain follow]
        at found
      exact (Host.isLive_iff.mp (isLive_of_queryAll plain upward stays starts live found)).1
  · intro unlinked absent
    rw [startsPresent, Bool.or_eq_false_iff, Bool.not_eq_false'] at absent
    cases chain with
    | link segment connector rest => cases unlinked
    | last segment =>
        exact ⟨.node {} [.node {} []], [1], 0, by decide +kernel,
          not_findsAttached absent.1 absent.2⟩

/-- A query for a text passes over a node with that text that was detached. -/
theorem finds_attached_text :
    let labelled : Chain := .last
      ⟨false, .compare ⟨.reference (.known .text) ⟨1, 5⟩, .equal, .text "Skip" none ⟨6, 12⟩,
        ⟨1, 12⟩⟩, none, ⟨0, 13⟩⟩
    let skip : CapturedNode := .node { text := some "Skip" } []
    let host := Host.serving (.node {} [skip, skip]) [1] true
    parse "[text=\"Skip\"]" = .ok labelled ∧ labelled.staysPresent = true ∧
      labelled.startsPresent = true ∧ host.isLive 0 = true ∧
      labelled.FindsAttached host default 0 (.fresh 0) ∧
      (labelled.queryAll host.directView default 0).answer (.fresh 0) = [2] := by
  intro labelled skip host
  have stays : labelled.staysPresent = true := rfl
  have starts : labelled.startsPresent = true := by decide +kernel
  have live : host.isLive 0 = true := by decide +kernel
  have attached := ((finds_attached labelled).1 stays (.node {} [skip, skip]) [1] true default 0
    (.fresh 0) live).2 starts
  exact ⟨by decide +kernel, stays, starts, live, attached, by decide +kernel⟩

/-- A node that was detached has no text. -/
theorem not_always_findsAttached :
    ¬ ∀ (source : String) (chain : Chain) (root : CapturedNode) (gone : List NodeId)
      (indexed : Bool) (options : QueryOptions) (node : NodeId) (session : Session),
      parse source = .ok chain → (Host.serving root gone indexed).isLive node = true →
        chain.FindsAttached (Host.serving root gone indexed) options node session := by
  intro always
  let unlabelled : Chain := .last
    ⟨false, .compare ⟨.reference (.known .text) ⟨1, 5⟩, .equal, .null ⟨6, 10⟩, ⟨1, 10⟩⟩,
      none, ⟨0, 11⟩⟩
  have parsed : parse "[text=null]" = .ok unlabelled := by decide +kernel
  have attached := always _ _ (.node { text := some "x" } [.node {} []]) [1] true default 0
    (.fresh 0) parsed (by decide +kernel)
  exact absurd (attached.queryAll 1 (by decide +kernel)) (by decide +kernel)

end Chain

end TreeSelector

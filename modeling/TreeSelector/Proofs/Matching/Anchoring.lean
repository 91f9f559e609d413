import TreeSelector.Proofs.Reading.Kinship

/-!
# Chains for the root alone

A predicate that says of a node that it has no parent holds of the root of a tree only.  So a
chain whose head says so can be matched from the root at once: to test it on all nodes of the
tree, one after the other, would find nothing else.
-/

namespace TreeSelector

namespace Comparison

variable {comparison : Comparison} {view : View} {context : Context} {session : Session}

/-- What says that there is no parent is false where there is one. -/
theorem holds_eq_false_of_parent (orphan : comparison.saysOrphan = true)
    (parented : (view.parent context.current).answer session ≠ none) :
    (comparison.holds view context).answer session = false := by
  obtain ⟨parent, answered⟩ := Option.ne_none_iff_exists'.mp parented
  have named : Value.orNull .node ((view.parent context.current).answer session) ≠ .null := by
    rw [answered]
    exact nofun
  rcases comparison with ⟨left, relation, right, span⟩
  obtain ⟨equal, sides⟩ := Bool.and_eq_true_iff.mp orphan
  obtain rfl : relation = .equal := eq_of_beq equal
  dsimp only at sides
  split at sides
  · obtain rfl := eq_of_beq sides
    simp only [holds, Operand.eval]
    exact decide_eq_false named
  · obtain rfl := eq_of_beq sides
    simp only [holds, Operand.eval]
    exact decide_eq_false named.symm
  · cases sides

end Comparison

namespace Predicate

variable {view : View} {context : Context} {kept : Session → Prop}

/-- A predicate does not hold if one of its conjuncts never does. -/
theorem holds_eq_false_of_conjunct
    (keeps : ∀ (predicate : Predicate) (session : Session), kept session →
      kept ((predicate.holds view context).after session))
    {comparison : Comparison}
    (fails : ∀ session, kept session → (comparison.holds view context).answer session = false)
    {predicate : Predicate} (conjunct : comparison ∈ predicate.conjuncts) {session : Session}
    (holds : kept session) : (predicate.holds view context).answer session = false := by
  induction predicate generalizing session with
  | compare other =>
      obtain rfl := List.mem_singleton.mp conjunct
      exact fails session holds
  | and left right leftFails rightFails =>
      rw [Predicate.holds, Reading.answer_bind]
      cases first : (left.holds view context).answer session with
      | false => rfl
      | true =>
          rcases List.mem_append.mp conjunct with onLeft | onRight
          · rw [leftFails onLeft holds] at first
            cases first
          · exact rightFails onRight (keeps left session holds)
  | or left right => cases conjunct

end Predicate

namespace View

variable {α : Type} {test : NodeId → Reading (Option α)} {nodes : List NodeId}
  {kept : Session → Prop}

/-- Nothing is found among nodes at which the test fails. -/
theorem searchAmong_eq_none (fails : ∀ node ∈ nodes, ∀ session, kept session →
      (test node).answer session = none ∧ kept ((test node).after session))
    {session : Session} (holds : kept session) :
    (searchAmong test nodes).answer session = none := by
  induction nodes generalizing session with
  | nil => rfl
  | cons node nodes hypothesis =>
      obtain ⟨here, there⟩ := List.forall_mem_cons.mp fails
      obtain ⟨failed, holdsThen⟩ := here session holds
      rw [searchAmong, Reading.answer_bind, failed]
      exact hypothesis there holdsThen

theorem collectAmong_eq_nil (fails : ∀ node ∈ nodes, ∀ session, kept session →
      (test node).answer session = none ∧ kept ((test node).after session))
    {session : Session} (holds : kept session) :
    (collectAmong test nodes).answer session = [] := by
  induction nodes generalizing session with
  | nil => rfl
  | cons node nodes hypothesis =>
      obtain ⟨here, there⟩ := List.forall_mem_cons.mp fails
      obtain ⟨failed, holdsThen⟩ := here session holds
      rw [collectAmong, Reading.answer_bind, failed]
      exact hypothesis there holdsThen

end View

theorem Tree.size_ofCaptured_pos (root : CapturedNode) : 0 < (ofCaptured root).size := by
  cases root
  exact Nat.zero_lt_succ _

namespace Chain

variable {root : CapturedNode} {indexed remembering : Bool} {chain : Chain} {capacity : Nat}
  {session : Session}

/-- Tests a chain at a node, whatever the chain says of roots; the result is the target node
of the match. -/
def matchAt (chain : Chain) (view : View) (options : QueryOptions) (node : NodeId) :
    Reading (Option NodeId) := do
  return (← chain.matchIn view options (.single node)).bind (·.get? chain.targetIndex)

theorem matchIn_of_head_fails {view : View} {options : QueryOptions} {context : Context}
    (fails : (chain.head.predicate.holds view context).answer session = false) :
    (chain.matchIn view options context).answer session = none := by
  cases chain with
  | last | link =>
      rw [matchIn, Reading.answer_bind]
      dsimp only [head] at fails
      rw [fails]
      rfl

theorem matchAt_agree (options : QueryOptions) (node : NodeId) :
    let view := (Host.serving root [] indexed).view remembering
    Reading.Agree capacity (Tree.ofCaptured root) (chain.matchAt view options node)
      (chain.matchAt view options node) :=
  let agree : Reading.Agree capacity (Tree.ofCaptured root) _ _ :=
    (Host.view_parallels root indexed remembering).matchIn options chain (.single node)
  agree.map _

/-- The head of a chain for the root alone does not hold of any other node. -/
theorem head_fails_below_root (anchored : chain.isRootAnchored = true) {context : Context}
    (below : context.current ≠ 0) (present : context.current < (Tree.ofCaptured root).size)
    (recalls : Reading.Recalls capacity (Tree.ofCaptured root).facts session) :
    (chain.head.predicate.holds ((Host.serving root [] indexed).view remembering)
      context).answer session = false := by
  obtain ⟨comparison, conjunct, orphan⟩ := List.any_eq_true.mp anchored
  have keeps : ∀ (predicate : Predicate) (session : Session),
      Reading.Recalls capacity (Tree.ofCaptured root).facts session →
      Reading.Recalls capacity (Tree.ofCaptured root).facts
        ((predicate.holds ((Host.serving root [] indexed).view remembering) context).after
          session) :=
    fun predicate session recalls => ((Host.view_parallels root indexed remembering).predicate
      context predicate session session (.refl recalls)).2.recalls
  refine Predicate.holds_eq_false_of_conjunct keeps (fun session recalls => ?_) conjunct recalls
  exact comparison.holds_eq_false_of_parent orphan
    (Host.view_parent_ne_none remembering below present recalls)

theorem matchAt_fails_below_root (anchored : chain.isRootAnchored = true)
    (options : QueryOptions) {node : NodeId} (below : node ≠ 0)
    (present : node < (Tree.ofCaptured root).size)
    (recalls : Reading.Recalls capacity (Tree.ofCaptured root).facts session) :
    let test := chain.matchAt ((Host.serving root [] indexed).view remembering) options node
    test.answer session = none ∧
      Reading.Recalls capacity (Tree.ofCaptured root).facts (test.after session) := by
  have fails : (chain.matchIn ((Host.serving root [] indexed).view remembering) options
      (.single node)).answer session = none :=
    matchIn_of_head_fails (head_fails_below_root anchored below present recalls)
  refine ⟨?_, (matchAt_agree options node session session (.refl recalls)).2.recalls⟩
  rw [matchAt, Reading.answer_bind, fails]
  rfl

/-- It does not matter whether the root was read before the chain is matched from there. -/
theorem matchNode_of_anchored (anchored : chain.isRootAnchored = true) (options : QueryOptions)
    (node : NodeId) (recalls : Reading.Recalls capacity (Tree.ofCaptured root).facts session) :
    let view := (Host.serving root [] indexed).view remembering
    (chain.matchNode view options node).answer session =
      (chain.matchAt view options 0).answer session := by
  intro view
  obtain ⟨top, kin⟩ := Host.view_root_settles root indexed remembering session recalls
  have started : (chain.matchNode view options node).answer session =
      (chain.matchAt view options ((view.root.answer session).getD node)).answer
        (view.root.after session) := by
    unfold matchNode matchContext
    rw [anchored]
    rfl
  rw [started, top]
  exact ((matchAt_agree options 0 session _ kin).1).symm

/-- The nodes of a tree are its root and what is below it. -/
theorem range_size_eq (root : CapturedNode) : ∃ below, (∀ node ∈ below, node ≠ 0 ∧
    node < (Tree.ofCaptured root).size) ∧ List.range (Tree.ofCaptured root).size = 0 :: below := by
  obtain ⟨count, counted⟩ : ∃ count, (Tree.ofCaptured root).size = count + 1 :=
    Nat.exists_eq_add_one.mpr (Tree.size_ofCaptured_pos root)
  refine ⟨List.range' 1 count, fun node member => ?_, ?_⟩
  · obtain ⟨after, before⟩ := List.mem_range'_1.mp member
    omega
  · rw [counted, List.range_eq_range', List.range'_succ]

/-- Nothing is lost by matching a chain for the root alone from there.  While nothing is
detached, the head of the chain holds of no other node, and a query from any node finds what
it would find by testing the chain on the root and on whatever is below it, in pre-order, which
is the order of the numbers of nodes. -/
theorem anchoring_loses_no_match (root : CapturedNode) (indexed remembering : Bool)
    (chain : Chain) (anchored : chain.isRootAnchored = true) (options : QueryOptions)
    (node : NodeId) (capacity : Nat) (session : Session)
    (recalls : Reading.Recalls capacity (Tree.ofCaptured root).facts session) :
    let view := (Host.serving root [] indexed).view remembering
    let nodes := List.range (Tree.ofCaptured root).size
    (∀ context : Context, context.current ∈ nodes → context.current ≠ 0 →
        (chain.head.predicate.holds view context).answer session = false) ∧
      (chain.query view options node).answer session =
        (View.searchAmong (chain.matchAt view options) nodes).answer session ∧
      (chain.queryAll view options node).answer session =
        firstOccurrences ((View.collectAmong (chain.matchAt view options) nodes).answer
          session) := by
  intro view nodes
  obtain ⟨below, member_below, split⟩ := range_size_eq root
  have fails : ∀ other ∈ below, ∀ session,
      Reading.Recalls capacity (Tree.ofCaptured root).facts session →
        (chain.matchAt view options other).answer session = none ∧
          Reading.Recalls capacity (Tree.ofCaptured root).facts
            ((chain.matchAt view options other).after session) := by
    intro other member session recalls
    obtain ⟨apart, present⟩ := member_below other member
    exact matchAt_fails_below_root anchored options apart present recalls
  have agree : Reading.Agree capacity (Tree.ofCaptured root) (chain.matchAt view options 0)
      (chain.matchAt view options 0) := matchAt_agree options 0
  have recallsThen := (agree session session (.refl recalls)).2.recalls
  have matched : (chain.matchNode view options node).answer session =
      (chain.matchAt view options 0).answer session :=
    matchNode_of_anchored anchored options node recalls
  refine ⟨?_, ?_, ?_⟩
  · intro context member apart
    exact head_fails_below_root anchored apart (List.mem_range.mp member) recalls
  · have nothing := View.searchAmong_eq_none fails recallsThen
    rw [query, anchored, if_pos rfl, matched, show nodes = _ from split, View.searchAmong,
      Reading.answer_bind]
    cases (chain.matchAt view options 0).answer session with
    | some found => rfl
    | none => exact nothing.symm
  · have nothing := View.collectAmong_eq_nil fails recallsThen
    have queried : (chain.queryAll view options node).answer session =
        ((chain.matchNode view options node).answer session).toList := by
      rw [queryAll, anchored]
      rfl
    rw [queried, matched, show nodes = _ from split, View.collectAmong, Reading.answer_bind]
    cases (chain.matchAt view options 0).answer session with
    | none => rw [nothing]; rfl
    | some found =>
        dsimp only
        rw [Reading.answer_bind, nothing]
        rfl

/-- Asked for from its child, the root is found, as it is by going through the tree. -/
theorem anchoring_loses_no_match_of_parent :
    let tree : CapturedNode := .node {} [.node {} [.node {} []]]
    let chain : Chain := .last ⟨false,
      .and (.compare ⟨.reference (.known .childCount) ⟨1, 11⟩, .more, .integer 0 ⟨12, 13⟩,
          ⟨1, 13⟩⟩)
        (.compare ⟨.null ⟨15, 19⟩, .equal, .reference (.known .parent) ⟨20, 26⟩, ⟨15, 26⟩⟩),
      none, ⟨0, 27⟩⟩
    let view := (Host.serving tree [] true).view true
    let session := Session.fresh 1
    chain.isRootAnchored = true ∧ Reading.Recalls 1 (Tree.ofCaptured tree).facts session ∧
      (chain.query view default 1).answer session = some 0 ∧
      (View.searchAmong (chain.matchAt view default) [0, 1, 2]).answer session = some 0 := by
  intro tree chain view session
  have anchored : chain.isRootAnchored = true := by decide +kernel
  have found : (chain.query view default 1).answer session = some 0 := by decide +kernel
  have fresh : Reading.Recalls 1 (Tree.ofCaptured tree).facts session := Reading.recalls_fresh
  obtain ⟨_, same, _⟩ :=
    anchoring_loses_no_match tree true true chain anchored default 1 1 session fresh
  exact ⟨anchored, fresh, found, same.symm.trans found⟩

end Chain

end TreeSelector

import TreeSelector.Grammar.Selector
import TreeSelector.Proofs.Matching.Searched
import TreeSelector.Proofs.Reading.Coherence

/-!
# When remembering changes no answer

The remembering view learns the parent and the position of a node along with the node.
The direct view asks for them, which fails for a node that was detached, and finds a node
only among the children that a walk visits.  So a chain finds the same through both views
if it never looks up or sideways; if it does, nothing may have been detached, and a chain
that also asks for children by position may not meet more of them than a walk visits.
-/

namespace TreeSelector

namespace Chain

/-- All that matching a chain may ask of a view. -/
def scope (chain : Chain) : Scope where
  upward := chain.names.any (· ∈ [.known .parent, .known .index, .known .depth]) ||
    chain.connectors.any (· ∉ [.child, .descendant])
  far := chain.names.contains (.known .getChild)

theorem permits_scope (chain : Chain) {symbol : Symbol}
    (member : Name.known symbol ∈ chain.names) : chain.scope.permits symbol = true := by
  have upward : Name.known symbol ∈ [.known .parent, .known .index, .known .depth] →
      chain.scope.upward = true := by
    intro listed
    have found : chain.names.any (· ∈ [.known .parent, .known .index, .known .depth]) = true :=
      List.any_eq_true.mpr ⟨_, member, decide_eq_true listed⟩
    rw [scope, found]
    rfl
  cases symbol
  case parent | index | depth => exact upward (by decide)
  case getChild => exact List.contains_iff_mem.mpr member
  all_goals rfl

theorem staysWithin_scope (chain : Chain) : chain.StaysWithin chain.scope where
  names := by
    rintro (symbol | spelling) member _ ⟨⟩
    exact chain.permits_scope member
  connectors := by
    intro connector member
    have upward : connector ∉ [.child, .descendant] → chain.scope.upward = true := by
      intro other
      have found : chain.connectors.any (· ∉ [.child, .descendant]) = true :=
        List.any_eq_true.mpr ⟨_, member, decide_eq_true other⟩
      rw [scope, found]
      exact Bool.or_true _
    cases connector
    case beforeBrother | afterBrother | ancestor => exact upward (by decide)
    all_goals rfl

end Chain

namespace Host

open Reading (Recalls)

variable {host : Host} {capacity : Nat} {scope : Scope}

/-- Whether all that is within a scope may be asked of a remembering view. -/
def Supports (host : Host) (scope : Scope) : Prop :=
  scope.upward = true → host.detached = [] ∧ (scope.far = true → host.tree.IsNarrow)

/-- What is recalled of the children of nodes and of the root, whatever is learned with
it. -/
def factsBelow (host : Host) : TreeFacts NodeId where
  child parent index child := host.child parent index = .ok (some child)
  index _ _ := True
  parent _ _ := True
  root node := host.root = .ok node

/-- Below a node, remembering changes no answer. -/
theorem IsPlain.followsWithin_below (plain : host.IsPlain) (below : scope.upward = false) :
    host.rememberingView.FollowsWithin (Recalls capacity host.factsBelow) scope
      host.directView where
  root := (plain.recallRoot_saves fun _ => .rfl).follows
  parent := fun upward => absurd upward (by simp [below])
  child := fun _ _ _ => (plain.recallChild_saves (fun _ told => told) fun _ produced =>
    ⟨produced, trivial, trivial⟩).follows
  childCount := fun node => (readChildCount_saves node).follows
  index := fun upward => absurd upward (by simp [below])
  depth := fun upward => absurd upward (by simp [below])
  attributeValue := fun node attr => (readAttribute_saves node attr).follows
  lookUp := fun node keys => (readIndex_saves node keys).follows
  heightBound := rfl

theorem lt_of_mem_answer_findPosition {test : Nat → Reading Bool} {position count : Nat}
    {session : Session} :
    ∀ found ∈ (Reading.findPosition test position count).answer session,
      found < position + count := by
  induction count generalizing position session with
  | zero => exact nofun
  | succ count hypothesis =>
      intro found here
      rw [Reading.findPosition, Reading.answer_bind] at here
      cases tested : (test position).answer session with
      | false =>
          rw [tested] at here
          have later := hypothesis found here
          omega
      | true =>
          rw [tested] at here
          obtain rfl : position = found := Option.some.inj here
          omega

/-- The direct view finds positions only among the children that a walk visits. -/
theorem lt_of_mem_answer_index (node : NodeId) (session : Session) :
    ∀ position ∈ (host.directView.index node).answer session, position < maxChildren := by
  intro position found
  change position ∈ (host.directView.parent node >>= _).answer session at found
  rw [Reading.answer_bind] at found
  cases parent : (host.directView.parent node).answer session with
  | none =>
      rw [parent] at found
      obtain rfl : 0 = position := Option.some.inj found
      decide
  | some parent' =>
      rw [parent] at found
      rw [Reading.answer_bind] at found
      have inside := lt_of_mem_answer_findPosition position found
      omega

theorem nodeAttribute_index_ne (node : NodeId) (session : Session) :
    (host.directView.nodeAttribute node .index).answer session ≠ .int 512 := by
  change Value.orNull Method.count ((host.directView.index node).answer session) ≠ _
  cases found : (host.directView.index node).answer session with
  | none => exact nofun
  | some position =>
      have near := lt_of_mem_answer_index node session position found
      have small : ∀ position < maxChildren, Int32.ofNat position ≠ 512 := by decide +kernel
      exact fun same => small position near (Value.int.inj same)

/-- No value read through the direct view is at the first position that no walk visits. -/
theorem eval_index_ne (host : Host) (context : Context) (object : Operand) (span : Span)
    (session : Session) :
    ((Operand.member object (.known .index) span).eval host.directView context).answer session ≠
      .int 512 := by
  rw [Operand.eval, Reading.answer_bind]
  dsimp only [Name.symbol?]
  split
  · exact nofun
  · cases (object.eval host.directView context).answer session with
    | context context => exact nodeAttribute_index_ne _ _
    | node node => exact nodeAttribute_index_ne _ _
    | null | boolean | int | string => exact nofun

/-- While nothing is detached, remembering changes no answer about the children that a walk
visits. -/
theorem IsPlain.followsWithin_whole (plain : host.IsPlain) (consistent : host.IsConsistent)
    (whole : host.detached = []) (narrow : scope.far = true → host.tree.IsNarrow) :
    host.rememberingView.FollowsWithin (Recalls capacity host.facts) scope
      host.directView where
  root := (plain.recallRoot_saves fun _ => .rfl).follows
  parent := fun _ node => (consistent.recallParent_saves node).follows
  child := by
    intro node index covered
    have near : ∀ child, host.child node index = .ok (some child) → index < maxChildren := by
      intro child produced
      rcases covered with far | near
      · exact lt_maxChildren_of_isNarrow whole (narrow far) node index child produced
      · exact near
    exact (plain.recallChild_saves_near consistent near).follows
  childCount := fun node => (readChildCount_saves node).follows
  index := by
    intro _ node session session' recalls
    obtain ⟨same, kept, _⟩ := plain.recallIndex_saves consistent node session session' recalls
    refine ⟨same, kept, fun position found => .inr ?_⟩
    exact lt_of_mem_answer_index node session' position (same ▸ found)
  depth := fun _ node => (consistent.depth_saves node).follows
  attributeValue := fun node attr => (readAttribute_saves node attr).follows
  lookUp := fun node keys => (readIndex_saves node keys).follows
  heightBound := rfl

theorem serving_eq_of_whole {root : CapturedNode} {gone : List NodeId} {indexed : Bool}
    (whole : (serving root gone indexed).detached = []) :
    serving root gone indexed = serving root [] indexed := by
  obtain ⟨detached, same⟩ := foldl_detach_eq { tree := Tree.ofCaptured root, indexed } gone
  rw [serving, same] at whole ⊢
  obtain rfl : detached = [] := whole
  rfl

/-- Whatever a host supports is answered alike by both views. -/
theorem serving_followsWithin {root : CapturedNode} {gone : List NodeId} {indexed : Bool}
    (supports : (serving root gone indexed).Supports scope) (capacity : Nat) :
    ∃ facts, (serving root gone indexed).rememberingView.FollowsWithin
      (Recalls capacity facts) scope (serving root gone indexed).directView := by
  have plain := serving_isPlain root gone indexed
  cases upward : scope.upward with
  | false => exact ⟨_, plain.followsWithin_below upward⟩
  | true =>
      obtain ⟨whole, narrow⟩ := supports upward
      have consistent : (serving root gone indexed).IsConsistent := by
        rw [serving_eq_of_whole whole]
        exact serving_isConsistent root indexed
      exact ⟨_, plain.followsWithin_whole consistent whole narrow⟩

end Host

namespace Chain

/-- Matching finds the same whether or not it remembers the structure of the tree. -/
structure IsTransparent (chain : Chain) (host : Host) (capacity : Nat)
    (options : QueryOptions) (node : NodeId) : Prop where
  query : (chain.query host.rememberingView options node).answer (.fresh capacity) =
    (chain.query host.directView options node).answer (.fresh capacity)
  queryAll : (chain.queryAll host.rememberingView options node).answer (.fresh capacity) =
    (chain.queryAll host.directView options node).answer (.fresh capacity)
  matchContext : (chain.matchContext host.rememberingView options node).answer
    (.fresh capacity) = (chain.matchContext host.directView options node).answer (.fresh capacity)
  matchNode : (chain.matchNode host.rememberingView options node).answer (.fresh capacity) =
    (chain.matchNode host.directView options node).answer (.fresh capacity)

/-- A chain finds the same through both views if it never looks up or sideways, or if
nothing was detached and it does not ask for children by position where there are more of
them than a walk visits. -/
theorem isTransparent_of_supports (root : CapturedNode) (gone : List NodeId) (indexed : Bool)
    (chain : Chain) (supports : (Host.serving root gone indexed).Supports chain.scope)
    (capacity : Nat) (options : QueryOptions) (node : NodeId) :
    chain.IsTransparent (Host.serving root gone indexed) capacity options node := by
  obtain ⟨facts, follows⟩ := Host.serving_followsWithin supports capacity
  have within := chain.staysWithin_scope
  have fresh : Reading.Recalls capacity facts (.fresh capacity) := Reading.recalls_fresh
  exact
    { query := (View.FollowsWithin.query within follows options node _ _ fresh).1
      queryAll := (View.FollowsWithin.queryAll within follows options node _ _ fresh).1
      matchContext := (View.FollowsWithin.matchContext within follows options node _ _ fresh).1
      matchNode := (View.FollowsWithin.matchNode within follows options node _ _ fresh).1 }

/-- Nodes with a parent. -/
def belowAnother : Chain :=
  .last ⟨false, .compare ⟨.reference (.known .parent) ⟨1, 7⟩, .notEqual, .null ⟨9, 13⟩,
    ⟨1, 13⟩⟩, none, ⟨0, 14⟩⟩

/-- Nodes whose 513th child is at that position. -/
def withFarChild : Chain :=
  .last ⟨false, .compare ⟨.member (.call (.known .getChild) ⟨1, 9⟩ [.integer 512 ⟨10, 13⟩]
    ⟨1, 14⟩) (.known .index) ⟨1, 20⟩, .equal, .integer 512 ⟨21, 24⟩, ⟨1, 24⟩⟩, none, ⟨0, 25⟩⟩

theorem matchNode_withFarChild (host : Host) (node : NodeId) (session : Session) :
    (withFarChild.matchNode host.directView default node).answer session = none := by
  -- not evaluated, since the direct view would go through hundreds of children
  have steady := host.directView_isSteady
  have unlike := host.eval_index_ne (.single node)
    (.call (.known .getChild) ⟨1, 9⟩ [.integer 512 ⟨10, 13⟩] ⟨1, 14⟩) ⟨1, 20⟩ (.fresh 0)
  have fails : (withFarChild.head.predicate.holds host.directView (.single node)).result =
      false := decide_eq_false unlike
  have free : withFarChild.isRootAnchored = false := by decide +kernel
  rw [(steady.matchNode default withFarChild node).gives session, matchNode_result steady,
    matchContext_result steady, free]
  exact congrArg (Option.bind · _) (matchIn_eq_none steady default withFarChild _ fails)

theorem isTransparent_belowAnother :
    let tree : CapturedNode := .node {} [.node {} [.node {} []]]
    (Host.serving tree [7] true).Supports belowAnother.scope ∧
      belowAnother.IsTransparent (Host.serving tree [7] true) 1 default 0 := by
  intro tree
  have supports : (Host.serving tree [7] true).Supports belowAnother.scope :=
    fun _ => ⟨by decide +kernel, fun far => absurd far (by decide +kernel)⟩
  exact ⟨supports, isTransparent_of_supports tree [7] true belowAnother supports 1 default 0⟩

/-- Once a child was detached, it is still recalled to have a parent; and a child that no
walk visits is recalled to be at its position. -/
theorem not_always_isTransparent :
    (¬ ∀ (source : String) (chain : Chain) (root : CapturedNode) (gone : List NodeId)
      (indexed : Bool) (capacity : Nat) (options : QueryOptions) (node : NodeId),
      parse source = .ok chain → (Tree.ofCaptured root).IsNarrow → 1 ≤ capacity →
        chain.IsTransparent (Host.serving root gone indexed) capacity options node) ∧
    ¬ ∀ (source : String) (chain : Chain) (root : CapturedNode) (indexed : Bool)
      (capacity : Nat) (options : QueryOptions) (node : NodeId),
      parse source = .ok chain → 1 ≤ capacity →
        chain.IsTransparent (Host.serving root [] indexed) capacity options node := by
  constructor
  · intro always
    have parsed : parse "[parent!=null]" = .ok belowAnother := by decide +kernel
    have alike := (always _ _ (.node {} [.node {} []]) [1] true 1 default 0 parsed
      (by decide +kernel) (Nat.le_refl 1)).query
    exact absurd alike (by decide +kernel)
  · intro always
    have parsed : parse "[getChild(512).index=512]" = .ok withFarChild := by decide +kernel
    have alike := (always _ _ (.node {} (.replicate 513 (.node {} []))) true 1 default 0 parsed
      (Nat.le_refl 1)).matchNode
    rw [matchNode_withFarChild] at alike
    exact absurd alike (by decide +kernel)

end Chain

end TreeSelector

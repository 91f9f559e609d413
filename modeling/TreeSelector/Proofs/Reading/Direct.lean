import TreeSelector.Proofs.Reading.Candidates
import TreeSelector.Proofs.Tree.Served
import TreeSelector.Reading.Direct

/-!
# What the direct view answers

The direct view is steady, so each of its readings has one answer.  On a host that
nothing but detached subtrees keeps from being read, its walk below a node meets
what the host's index takes for reachable.
-/

namespace TreeSelector

open Reading (Gives IsSteady)

namespace Reading

theorem gives_ask {α : Type} (answer : Except HostError α) :
    Gives (ask answer) answer.toOption :=
  fun _ => rfl

theorem isSteady_ask {α : Type} (answer : Except HostError α) : (ask answer).IsSteady :=
  fun _ _ _ => ⟨rfl, trivial⟩

end Reading

namespace Host

open Reading (gives_ask isSteady_ask)

section Steadiness

variable (host : Host)

theorem isSteady_readRoot : host.readRoot.IsSteady :=
  .ite (.pure none) (isSteady_ask _)

theorem isSteady_parent (node : NodeId) : (host.directView.parent node).IsSteady :=
  (isSteady_ask (host.parent node)).map _

theorem isSteady_readChild (node : NodeId) (index : Nat) :
    (host.readChild node index).IsSteady :=
  .ite (.pure none) ((isSteady_ask _).map _)

theorem isSteady_readChildCount (node : NodeId) : (host.readChildCount node).IsSteady :=
  (isSteady_ask _).map _

theorem isSteady_index (node : NodeId) : (host.directView.index node).IsSteady := by
  refine Reading.Follows.bind (host.isSteady_parent node) fun parent => ?_
  cases parent with
  | none => exact .pure _
  | some parent =>
      refine Reading.Follows.bind (host.isSteady_readChildCount parent) fun count => ?_
      exact .findPosition (fun position => (host.isSteady_readChild parent position).map _) _ _

theorem isSteady_climb (room : Nat) (node : NodeId) : (host.climb room node).IsSteady := by
  induction room generalizing node with
  | zero => exact .pure 0
  | succ room hypothesis =>
      refine Reading.Follows.bind (isSteady_ask (host.parent node)) fun parent => ?_
      split
      · exact .pure 1
      · exact (hypothesis _).map _

theorem isSteady_depth (node : NodeId) : (host.directView.depth node).IsSteady := by
  refine Reading.Follows.bind (host.isSteady_parent node) fun parent => ?_
  cases parent with
  | none => exact .pure 0
  | some parent => exact host.isSteady_climb maxDescendants parent

theorem isSteady_readAttribute (node : NodeId) (attr : Attribute) :
    (host.readAttribute node attr).IsSteady :=
  .ite (fun _ _ _ => ⟨rfl, trivial⟩) ((isSteady_ask _).map _)

theorem isSteady_readIndex (node : NodeId) (keys : List IndexKey) :
    (host.readIndex node keys).IsSteady :=
  .ite (isSteady_ask _) (.pure none)

/-- What the direct view answers does not depend on what was read before. -/
theorem directView_isSteady : host.directView.IsSteady where
  root := host.isSteady_readRoot
  parent := host.isSteady_parent
  child := host.isSteady_readChild
  childCount := host.isSteady_readChildCount
  index := host.isSteady_index
  depth := host.isSteady_depth
  attributeValue := host.isSteady_readAttribute
  lookUp := host.isSteady_readIndex
  heightBound := rfl

end Steadiness

section Answers

variable {host : Host}

/-- A node is named if the host answers and its answer names it. -/
theorem eq_ok_of_join_eq_some {answer : Except HostError (Option NodeId)} {node : NodeId}
    (named : answer.toOption.join = some node) : answer = .ok (some node) := by
  rcases answer with error | _ | node'
  · cases named
  · cases named
  · rw [Option.some.inj named]

theorem IsPlain.gives_child (plain : host.IsPlain) (node : NodeId) (index : Nat) :
    Gives (host.directView.child node index) (host.child node index).toOption.join := by
  change Gives (host.readChild node index) _
  unfold readChild
  rw [plain.noHoles]
  exact (gives_ask (host.child node index)).map _

theorem gives_childCount (node : NodeId) :
    Gives (host.directView.childCount node) ((host.childCount node).toOption.getD 0) :=
  (gives_ask (host.childCount node)).map _

theorem IsPlain.gives_attributeValue (plain : host.IsPlain) (node : NodeId)
    (attr : Attribute) :
    Gives (host.directView.attributeValue node attr)
      ((host.attributeValue node attr).toOption.getD .absent) := by
  change Gives (host.readAttribute node attr) _
  unfold readAttribute
  rw [plain.noPoison]
  exact (gives_ask (host.attributeValue node attr)).map _

theorem gives_lookUp (host : Host) (node : NodeId) (keys : List IndexKey) :
    Gives (host.directView.lookUp node keys)
      (if host.indexed then (host.lookUp node keys).toOption else none) := by
  change Gives (host.readIndex node keys) _
  unfold readIndex
  split
  · exact gives_ask _
  · exact .pure none

/-- The nodes that answer to some keys are those which the index would hold. -/
theorem IsPlain.gives_answersTo (plain : host.IsPlain) (node : NodeId)
    (keys : List IndexKey) :
    Gives (host.directView.answersTo node keys) (host.answersTo node keys) := by
  have answers := TreeSelector.gives_answersTo host.directView_isSteady node keys
  have same : (keys.any fun key =>
      key.accepts (host.directView.attributeValue node key.subject).result) =
        host.answersTo node keys := by
    simp only [(plain.gives_attributeValue node _).result_eq]
    unfold answersTo attributeValue
    cases host.access node with
    | ok entry => rfl
    | error error => simp [Except.toOption, bind, Except.bind, IndexKey.accepts]
  rwa [same] at answers

end Answers

section Reach

variable {host : Host}

/-- The children that a host produces at some positions, one after the other. -/
def producedFrom (host : Host) (node : NodeId) (next left : Nat) : List NodeId :=
  (List.range' next left).filterMap fun index => (host.child node index).toOption.join

/-- What is still to be visited of a frame. -/
def produced (host : Host) (frame : Frame) : List NodeId :=
  host.producedFrom frame.node frame.next
    (frame.left.getD (min ((host.childCount frame.node).toOption.getD 0) maxChildren))

/-- What is still to be visited below a stack of frames, their descendants aside. -/
def pending (host : Host) (stack : List Frame) : List NodeId :=
  stack.flatMap host.produced

theorem producedFrom_succ (node : NodeId) (next left : Nat) :
    host.producedFrom node next (left + 1) =
      (host.child node next).toOption.join.toList ++
        host.producedFrom node (next + 1) left := by
  unfold producedFrom
  rw [List.range'_succ, List.filterMap_cons]
  cases (host.child node next).toOption.join <;> rfl

theorem filterMap_range'_getElem? {α : Type} (items : List α) (next left : Nat) :
    ((List.range' next left).filterMap fun index => items[index]?) =
      (items.drop next).take left := by
  induction left generalizing next with
  | zero => simp
  | succ left hypothesis =>
      rw [List.range'_succ, List.filterMap_cons, hypothesis]
      rcases Nat.lt_or_ge next items.length with inside | beyond
      · rw [List.getElem?_eq_getElem inside, List.drop_eq_getElem_cons inside]
        rfl
      · rw [List.getElem?_eq_none beyond, List.drop_eq_nil_of_le beyond,
          List.drop_eq_nil_of_le (Nat.le_succ_of_le beyond)]
        simp

/-- A walk that has not counted the children of a node goes on to all of those which
are visible. -/
theorem produced_unopened (node : NodeId) :
    host.produced (.unopened node) = host.visibleChildren node := by
  unfold produced producedFrom Frame.unopened visibleChildren childCount child
  cases host.access node with
  | error error => rfl
  | ok entry =>
      have listed := filterMap_range'_getElem? entry.children.toList 0
        (min entry.children.size maxChildren)
      rw [List.drop_zero, ← Array.length_toList, Nat.min_comm, ← List.take_eq_take_min]
        at listed
      simpa [bind, Except.bind, pure, Except.pure, Except.toOption, Nat.min_comm] using listed

theorem IsPlain.gives_firstChild (plain : host.IsPlain) (node : NodeId) (next left : Nat) :
    match (Frame.firstChild host.directView node next left).result with
    | none => host.producedFrom node next left = []
    | some (child, frame) =>
        host.producedFrom node next left = child :: host.produced frame := by
  induction left generalizing next with
  | zero => exact rfl
  | succ left hypothesis =>
      rw [producedFrom_succ]
      cases found : (host.child node next).toOption.join with
      | none =>
          have skipped : (Frame.firstChild host.directView node next (left + 1)).result =
              (Frame.firstChild host.directView node (next + 1) left).result := by
            refine Gives.result_eq ((plain.gives_child node next).bind ?_)
            rw [found]
            exact (host.directView_isSteady.firstChild node (next + 1) left).gives
          rw [skipped]
          exact hypothesis (next + 1)
      | some child =>
          have taken : (Frame.firstChild host.directView node next (left + 1)).result =
              some (child, ⟨node, next + 1, some left⟩) := by
            refine Gives.result_eq ((plain.gives_child node next).bind ?_)
            rw [found]
            exact .pure _
          rw [taken]
          rfl

theorem gives_remaining (host : Host) (frame : Frame) :
    Gives (frame.remaining host.directView)
      (frame.left.getD (min ((host.childCount frame.node).toOption.getD 0) maxChildren)) := by
  unfold Frame.remaining
  cases frame.left with
  | none => exact (gives_childCount frame.node).map _
  | some left => exact .pure left

theorem IsPlain.descend_result (plain : host.IsPlain) (stack : List Frame) :
    match (Route.descend host.directView stack).result with
    | none => host.pending stack = []
    | some (child, behind) =>
        ∃ others, host.pending stack = child :: others ∧
          host.pending behind = host.visibleChildren child ++ others := by
  induction stack with
  | nil => exact rfl
  | cons frame stack hypothesis =>
      have opened := host.gives_remaining frame
      have child := plain.gives_firstChild frame.node frame.next
        (frame.left.getD (min ((host.childCount frame.node).toOption.getD 0) maxChildren))
      have first := (host.directView_isSteady.firstChild frame.node frame.next
        (frame.left.getD (min ((host.childCount frame.node).toOption.getD 0)
          maxChildren))).gives
      split at child
      · rename_i nothing
        have skipped : (Route.descend host.directView (frame :: stack)).result =
            (Route.descend host.directView stack).result := by
          refine Gives.result_eq (opened.bind (first.bind ?_))
          rw [nothing]
          exact (host.directView_isSteady.descend stack).gives
        have same : host.pending (frame :: stack) = host.pending stack := by
          rw [pending, List.flatMap_cons, produced, child]
          rfl
        rw [skipped, same]
        exact hypothesis
      · rename_i node behind something
        have taken : (Route.descend host.directView (frame :: stack)).result =
            some (node, .unopened node :: behind :: stack) := by
          refine Gives.result_eq (opened.bind (first.bind ?_))
          rw [something]
          exact .pure _
        rw [taken]
        refine ⟨host.pending (behind :: stack), ?_, ?_⟩
        · rw [pending, List.flatMap_cons, produced, child]
          rfl
        · rw [pending, List.flatMap_cons, produced_unopened]
          rfl

theorem gives_next_below (stack : List Frame) (offset left : Nat) :
    Gives (Walk.next host.directView ⟨.below stack, offset, left + 1, 0⟩)
      ((Route.descend host.directView stack).result.map fun (node, behind) =>
        (node, ⟨.below behind, offset + 1, left, 0⟩)) := by
  have descends := (host.directView_isSteady.descend stack).gives
  cases found : (Route.descend host.directView stack).result with
  | none =>
      have look : Gives (Route.look host.directView offset (.below stack)) .ended :=
        descends.bind (by rw [found]; exact .pure _)
      exact look.bind (.pure _)
  | some below =>
      have look : Gives (Route.look host.directView offset (.below stack))
          (.reached below.1 (.below below.2)) :=
        descends.bind (by rw [found]; exact .pure _)
      exact look.bind (.pure _)

/-- A walk in pre-order meets what the index visits. -/
theorem IsPlain.take_below (plain : host.IsPlain) (stack : List Frame)
    (offset left : Nat) :
    (Walk.take host.directView left ⟨.below stack, offset, left, 0⟩).result =
      host.visit left (host.pending stack) := by
  induction left generalizing stack offset with
  | zero => rfl
  | succ left hypothesis =>
      rw [(gives_take_succ host.directView_isSteady left _).result_eq,
        (gives_next_below stack offset left).result_eq]
      have below := plain.descend_result stack
      split at below
      · rename_i nothing
        rw [nothing, below]
        rfl
      · rename_i child behind something
        obtain ⟨others, before, after⟩ := below
        rw [something, before, visit, ← after]
        exact congrArg (child :: ·) (hypothesis behind (offset + 1))

/-- A walk below a node meets what the index takes for reachable. -/
theorem IsPlain.descendants_eq (plain : host.IsPlain) (node : NodeId) :
    node :: (host.directView.descendants node).result = host.reachable node := by
  have walk : (Walk.start host.directView .descendant node .unbounded).result =
      ⟨.below [.unopened node], 0, maxDescendants, 0⟩ := rfl
  have below : (host.directView.descendants node).result =
      (Walk.take host.directView maxDescendants
        ⟨.below [.unopened node], 0, maxDescendants, 0⟩).result := by
    rw [View.descendants, (gives_candidates host.directView_isSteady _ _ _).result_eq, walk]
  have pending : host.pending [.unopened node] = host.visibleChildren node := by
    rw [pending, List.flatMap_cons, produced_unopened, List.flatMap_nil, List.append_nil]
  rw [below, plain.take_below, pending, reachable]

end Reach

end Host

end TreeSelector

import TreeSelector.Proofs.Tree.Intervals

/-!
# Visits in pre-order

Nodes are numbered in pre-order, so the subtree of a node ends before its next brother
begins.  Hence a bounded visit meets ever greater numbers, and no node twice, wherever it
has to stop and whatever was detached.
-/

namespace TreeSelector

namespace Tree

variable {first first' node other : Nat} {entries entries' : List Entry}

/-- Among entries that are numbered from `first` on, the subtree of a node ends before
another node. -/
def EndsBefore (first : Nat) (entries : List Entry) (node other : Nat) : Prop :=
  ∃ entry, HasEntry first entries node entry ∧ entry.subtreeEnd ≤ other

theorem EndsBefore.mono (ends : EndsBefore first entries node other)
    (among : ∀ node entry, HasEntry first entries node entry →
      HasEntry first' entries' node entry) :
    EndsBefore first' entries' node other := by
  obtain ⟨entry, found, before⟩ := ends
  exact ⟨entry, among node entry found, before⟩

/-- The first entry of a subtree is that of its top, which says where the subtree ends. -/
theorem hasEntry_top (first : Nat) (parent : Option Nat) (inherited : Option String)
    (captured : CapturedNode) :
    ∃ entry, HasEntry first (entriesOf first parent inherited captured) first entry ∧
      entry.subtreeEnd = first + (entriesOf first parent inherited captured).length := by
  cases captured
  rw [entriesOf]
  refine ⟨_, hasEntry_cons_iff.mpr (.inl ⟨rfl, rfl⟩), ?_⟩
  rw [List.length_cons]
  exact Nat.add_right_comm first 1 _

/-- The subtree of each sibling ends before the next one begins. -/
theorem entriesOfAll_endsBefore (first parent : Nat) (inherited : Option String)
    (children : List CapturedNode) :
    (entriesOfAll first parent inherited children).1.Pairwise
      (EndsBefore first (entriesOfAll first parent inherited children).2) := by
  induction children generalizing first with
  | nil =>
      rw [entriesOfAll]
      exact .nil
  | cons child children hypothesis =>
      rw [entriesOfAll]
      obtain ⟨entry, top, ends⟩ := hasEntry_top first (some parent) inherited child
      refine .cons (fun other member => ?_) ((hypothesis _).imp fun later => later.mono
        fun node entry found => hasEntry_append_iff.mpr (.inr found))
      obtain ⟨_, found, _⟩ := (entriesOfAll_isFamily _ parent inherited children).top other member
      exact ⟨entry, hasEntry_append_iff.mpr (.inl top), Nat.le_trans (Nat.le_of_eq ends) found.1⟩

/-- Among the nodes of a captured tree, the subtree of one ends before another one. -/
def Precedes (root : CapturedNode) : Nat → Nat → Prop :=
  EndsBefore 0 (entriesOf 0 none none root)

theorem Precedes.lt {root : CapturedNode} (precedes : Precedes root node other) :
    node < other := by
  obtain ⟨entry, found, ends⟩ := precedes
  exact Nat.lt_of_lt_of_le (lt_subtreeEnd (hasEntry_ofCaptured_iff.mp found)) ends

/-- The children of a node precede one another, and whatever the node precedes. -/
theorem children_precede {root : CapturedNode} {entry : Entry}
    (found : HasEntry 0 (entriesOf 0 none none root) node entry) :
    entry.children.toList.Pairwise (Precedes root) ∧
      ∀ child ∈ entry.children.toList, Precedes root child entry.subtreeEnd := by
  obtain ⟨inherited, children, listed, ends, laid⟩ :=
    entriesOf_holdsBelow 0 none none root node entry found
  rw [listed, ends]
  constructor
  · exact (entriesOfAll_endsBefore (node + 1) node inherited children).imp fun ends =>
      ends.mono laid
  · intro child member
    obtain ⟨held, present, _⟩ :=
      (entriesOfAll_isFamily (node + 1) node inherited children).top child member
    exact ⟨held, laid child held present,
      (entriesOfAll_isNested (Nat.lt_succ_self node) inherited children).ends child held present⟩

end Tree

namespace Host

variable {root : CapturedNode} {gone : List NodeId} {indexed : Bool}

/-- What a visit goes on to below a node takes its place among what is pending. -/
theorem visibleChildren_precede {node : NodeId} {pending : List NodeId}
    (apart : (node :: pending).Pairwise (Tree.Precedes root)) :
    ((serving root gone indexed).visibleChildren node ++ pending).Pairwise
      (Tree.Precedes root) := by
  obtain ⟨behind, apart⟩ := List.pairwise_cons.mp apart
  unfold visibleChildren
  cases accessed : (serving root gone indexed).access node with
  | error error => exact apart
  | ok entry =>
      have found := entry?_of_access accessed
      rw [tree_serving] at found
      have laid := Tree.hasEntry_ofCaptured_iff.mpr found
      obtain ⟨siblings, inside⟩ := Tree.children_precede laid
      refine List.pairwise_append.mpr
        ⟨siblings.sublist (List.take_sublist _ _), apart, fun child below other beside => ?_⟩
      obtain ⟨held, present, ends⟩ := inside child (List.mem_of_mem_take below)
      obtain ⟨_, again, before⟩ := behind other beside
      obtain rfl := Option.some.inj (laid.2.symm.trans again.2)
      exact ⟨held, present, Nat.le_trans ends before⟩

/-- A visit meets ever greater numbers. -/
theorem visit_ascending (room : Nat) {pending : List NodeId}
    (apart : pending.Pairwise (Tree.Precedes root)) :
    ((serving root gone indexed).visit room pending).Pairwise (· < ·) := by
  induction room generalizing pending with
  | zero => exact .nil
  | succ room hypothesis =>
      cases pending with
      | nil => exact .nil
      | cons node pending =>
          have follow := serving_childrenFollow root gone indexed
          have after : ∀ next ∈ (serving root gone indexed).visibleChildren node ++ pending,
              node < next := by
            intro next member
            rcases List.mem_append.mp member with below | beside
            · exact follow node next below
            · exact ((List.pairwise_cons.mp apart).1 next beside).lt
          exact .cons (lt_of_mem_visit follow after) (hypothesis (visibleChildren_precede apart))

/-- What a bounded walk reaches is met in the order of the numbers. -/
theorem reachable_ascending (node : NodeId) :
    ((serving root gone indexed).reachable node).Pairwise (· < ·) := by
  have follow := serving_childrenFollow root gone indexed
  have apart : ((serving root gone indexed).visibleChildren node ++ []).Pairwise
      (Tree.Precedes root) :=
    visibleChildren_precede (List.pairwise_singleton _ node)
  rw [List.append_nil] at apart
  exact .cons (lt_of_mem_visit follow (follow node)) (visit_ascending maxDescendants apart)

end Host

end TreeSelector

import TreeSelector.Proofs.Reading.Windows
import TreeSelector.Proofs.Tree.Intervals

/-!
# Converse connectors

On a tree that walks visit as a whole, the connectors are converses of one another: one leads
down to the nodes from which another leads up, and one leads forward to the brothers from
which another leads back, over the same distance.
-/

namespace TreeSelector

namespace Host

section Ancestors

variable {root : CapturedNode} {indexed : Bool}

theorem parent_of_entry {node : NodeId} {entry : Entry}
    (found : Tree.entry? (Tree.ofCaptured root) node = some entry) :
    (serving root [] indexed).parent node = .ok entry.parent :=
  parent_eq_ok_iff.mpr ⟨entry, (access_eq_ok_iff rfl).mpr found, rfl⟩

theorem eq_zero_of_parent_none {node : NodeId}
    (orphan : (serving root [] indexed).parent node = .ok none) : node = 0 := by
  have rooted := (serving_isConsistent root indexed).root_iff.mpr orphan
  unfold Host.root at rooted
  cases accessed : (serving root [] indexed).access 0 with
  | error error =>
      rw [accessed] at rooted
      cases rooted
  | ok entry =>
      rw [accessed] at rooted
      exact (Except.ok.inj rooted).symm

/-- The ancestors of a node are the nodes in whose subtrees it is, itself apart. -/
theorem mem_lineage_iff {top node room : Nat} {head entry : Entry}
    (foundTop : Tree.entry? (Tree.ofCaptured root) top = some head)
    (found : Tree.entry? (Tree.ofCaptured root) node = some entry) (enough : node ≤ room) :
    top ∈ (serving root [] indexed).lineage room node ↔
      top < node ∧ node < head.subtreeEnd := by
  have nested := Tree.ofCaptured_isNested root
  induction room generalizing node entry with
  | zero =>
      obtain rfl : node = 0 := Nat.le_zero.mp enough
      simp [lineage]
  | succ room hypothesis =>
      have answered : (serving root [] indexed).parent node = .ok entry.parent :=
        parent_of_entry found
      rw [lineage, answered]
      cases under : entry.parent with
      | none =>
          rw [under] at answered
          obtain rfl : node = 0 := eq_zero_of_parent_none answered
          simp [Except.toOption]
      | some holder =>
          have here := Tree.hasEntry_ofCaptured_iff.mpr found
          have before : holder < node := (nested.parents node entry holder here under).1
          obtain ⟨held, foundHolder⟩ :
              ∃ held, Tree.entry? (Tree.ofCaptured root) holder = some held :=
            Tree.exists_entry_of_lt found (Nat.le_of_lt before)
          have above : top ∈ (serving root [] indexed).lineage room holder ↔
              top < holder ∧ holder < head.subtreeEnd :=
            hypothesis foundHolder (Nat.le_of_lt_succ (Nat.lt_of_lt_of_le before enough))
          have whole : top < head.subtreeEnd := Tree.lt_subtreeEnd foundTop
          have either : ∀ holder bound : Nat, top < bound →
              ((top = holder ∨ top < holder ∧ holder < bound) ↔
                (top ≤ holder ∧ holder < bound)) := by
            omega
          refine List.mem_cons.trans ?_
          rw [above, either holder head.subtreeEnd whole]
          exact (Tree.mem_subtree_iff_parent foundTop found under).symm

/-- The walk below a node meets those nodes whose ancestors it is among. -/
theorem mem_below_iff (narrow : (Tree.ofCaptured root).IsNarrow)
    (small : (Tree.ofCaptured root).size ≤ maxDescendants + 1) {top node : Nat}
    {head entry : Entry} (foundTop : Tree.entry? (Tree.ofCaptured root) top = some head)
    (found : Tree.entry? (Tree.ofCaptured root) node = some entry) :
    let host := serving root [] indexed
    node ∈ host.along .descendant top ↔ top ∈ host.along .ancestor node := by
  intro host
  have inside : head.subtreeEnd ≤ 0 + (Tree.entriesOf 0 none none root).length :=
    (Tree.ofCaptured_isNested root).ends top head (Tree.hasEntry_ofCaptured_iff.mpr foundTop)
  have size : (Tree.ofCaptured root).size = (Tree.entriesOf 0 none none root).length := rfl
  have early : node < 0 + (Tree.entriesOf 0 none none root).length :=
    (Tree.hasEntry_ofCaptured_iff.mpr found).lt
  have enough : head.subtreeEnd ≤ top + 1 + maxDescendants :=
    Nat.le_trans inside (by omega)
  have above : top ∈ host.along .ancestor node ↔ top < node ∧ node < head.subtreeEnd :=
    mem_lineage_iff foundTop found (by rw [tree_serving]; omega)
  rw [above, along, visit_visibleChildren narrow foundTop enough, List.mem_range'_1,
    Nat.add_sub_cancel' (Tree.lt_subtreeEnd foundTop), Nat.succ_le_iff]

end Ancestors

section Places

variable {host : Host} {node other parent : Nat} {index offset : Nat}

theorem IsConsistent.place?_eq_iff (consistent : host.IsConsistent) :
    host.place? node = some (parent, index) ↔
      (host.visibleChildren parent)[index]? = some node := by
  rw [place?_eq_some_iff, List.idxOf?_eq_some_iff]
  constructor
  · rintro ⟨_, inside, same, _⟩
    exact List.getElem?_eq_some_iff.mpr ⟨inside, same⟩
  · intro visible
    have produced := (getElem?_visibleChildren.mp visible).1
    obtain ⟨inside, same⟩ := List.getElem?_eq_some_iff.mp visible
    refine ⟨consistent.parent_of_child produced, inside, same, fun before early again => ?_⟩
    have visible' : (host.visibleChildren parent)[before]? = some node :=
      List.getElem?_eq_some_iff.mpr ⟨Nat.lt_trans early inside, again⟩
    have produced' := (getElem?_visibleChildren.mp visible').1
    exact absurd (consistent.index_unique produced' produced) (Nat.ne_of_lt early)

theorem head?_ancestors :
    (host.along .ancestor other).head? = (host.parent other).toOption.join := by
  rw [along, lineage]
  cases (host.parent other).toOption.join <;> rfl

/-- A node is found under its first ancestor, where it is indexed. -/
theorem IsConsistent.child_iff (consistent : host.IsConsistent) :
    (host.along .child node)[offset]? = some other ↔
      (host.along .ancestor other).head? = some node ∧
        ((host.parent other).toOption.join.elim (some 0) fun parent =>
          (host.visibleChildren parent).idxOf? other) = some offset := by
  rw [along, ← consistent.place?_eq_iff, head?_ancestors, place?]
  cases (host.parent other).toOption.join with
  | none => simp
  | some parent =>
      simp only [Option.bind_eq_bind, Option.bind_some, Option.elim_some, Option.some.injEq]
      constructor
      · intro found
        obtain ⟨index, listed, same⟩ := Option.bind_eq_some_iff.mp found
        obtain ⟨rfl, rfl⟩ := Prod.mk.inj (Option.some.inj same)
        exact ⟨rfl, listed⟩
      · rintro ⟨rfl, listed⟩
        rw [listed]
        rfl

theorem IsConsistent.afterBrother_iff (consistent : host.IsConsistent) :
    (host.along .afterBrother node)[offset]? = some other ↔
      ∃ parent index, (host.visibleChildren parent)[index]? = some node ∧
        (host.visibleChildren parent)[index + 1 + offset]? = some other := by
  constructor
  · intro reached
    cases found : host.place? node with
    | none => simp [along, found] at reached
    | some place =>
        refine ⟨place.1, place.2, consistent.place?_eq_iff.mp found, ?_⟩
        simpa [along, found] using reached
  · rintro ⟨parent, index, visible, behind⟩
    simpa [along, consistent.place?_eq_iff.mpr visible] using behind

theorem IsConsistent.beforeBrother_iff (consistent : host.IsConsistent) :
    (host.along .beforeBrother other)[offset]? = some node ↔
      ∃ parent index, (host.visibleChildren parent)[index]? = some node ∧
        (host.visibleChildren parent)[index + 1 + offset]? = some other := by
  constructor
  · intro reached
    cases found : host.place? other with
    | none => simp [along, found] at reached
    | some place =>
        have inside := Nat.le_of_lt (lt_length_of_place? found)
        rw [along, found] at reached
        obtain ⟨early, before⟩ := (getElem?_reverse_take inside).mp reached
        have forward : place.2 - (1 + offset) + 1 + offset = place.2 := by omega
        refine ⟨place.1, place.2 - (1 + offset), before, ?_⟩
        rw [forward]
        exact consistent.place?_eq_iff.mp found
  · rintro ⟨parent, index, before, visible⟩
    have inside := Nat.le_of_lt (List.getElem?_eq_some_iff.mp visible).1
    have back : index + 1 + offset - (1 + offset) = index := by omega
    rw [along, consistent.place?_eq_iff.mpr visible]
    refine (getElem?_reverse_take inside).mpr ⟨by omega, ?_⟩
    rw [back]
    exact before

/-- A node is listed among the children of its parent, with its brothers around it. -/
theorem IsConsistent.brothers_eq (consistent : host.IsConsistent)
    (visible : (host.visibleChildren parent)[index]? = some node) :
    (host.along .beforeBrother node).reverse ++ node :: host.along .afterBrother node =
      host.along .child parent := by
  obtain ⟨inside, same⟩ := List.getElem?_eq_some_iff.mp visible
  rw [along, along, along, consistent.place?_eq_iff.mpr visible]
  calc ((host.visibleChildren parent).take index).reverse.reverse ++
        node :: (host.visibleChildren parent).drop (index + 1)
      _ = (host.visibleChildren parent).take index ++ (host.visibleChildren parent).drop index := by
        rw [List.reverse_reverse, List.drop_eq_getElem_cons inside, same]
      _ = host.visibleChildren parent := List.take_append_drop ..

end Places

/-- A parent lists the node among the children that a walk visits. -/
theorem exists_place_of_parent {root : CapturedNode} {indexed : Bool}
    (narrow : (Tree.ofCaptured root).IsNarrow) {node parent : Nat}
    (under : (serving root [] indexed).parent node = .ok (some parent)) :
    ∃ (index : Nat) (entry : Entry), Tree.entry? (Tree.ofCaptured root) parent = some entry ∧
      ((serving root [] indexed).visibleChildren parent)[index]? = some node := by
  obtain ⟨index, produced⟩ := (serving_isConsistent root indexed).child_of_parent under
  obtain ⟨entry, accessed, listed⟩ := child_eq_ok_iff.mp produced
  have found : Tree.entry? (Tree.ofCaptured root) parent = some entry :=
    (access_eq_ok_iff rfl).mp accessed
  refine ⟨index, entry, found, ?_⟩
  rw [visibleChildren_eq_children narrow found, Array.getElem?_toList, listed]

/-- Where nothing was detached and no walk is cut off, what a walk below one node meets is
what has the node as an ancestor.  What stands at an offset among the children of a node are
the nodes that have it as their first ancestor and that offset as their index.  A brother is
as far behind a node as the node is before it, and the brothers of a node with the node
between them are the children of its parent.  Each walk may begin in a session of its own. -/
theorem connectors_are_converses (root : CapturedNode) (indexed : Bool)
    (narrow : (Tree.ofCaptured root).IsNarrow)
    (small : (Tree.ofCaptured root).size ≤ maxDescendants + 1) (node other : Nat)
    (present : node < (Tree.ofCaptured root).size) (present' : other < (Tree.ofCaptured root).size)
    (session : Session) (sessions : Connector → NodeId → Session) :
    let host := serving root [] indexed
    let view := host.directView
    let walk := fun connector node =>
      (view.candidates connector node .unbounded).answer (sessions connector node)
    (other ∈ walk .descendant node ↔ node ∈ walk .ancestor other) ∧
      (∀ offset : Nat, (walk .child node)[offset]? = some other ↔
        (walk .ancestor other).head? = some node ∧
          (view.index other).answer session = some offset) ∧
      (∀ offset : Nat, (walk .afterBrother node)[offset]? = some other ↔
        (walk .beforeBrother other)[offset]? = some node) ∧
      (host.root ≠ .ok node → ∃ parent entry, (view.parent node).answer session = some parent ∧
        host.tree.entry? parent = some entry ∧
        (walk .beforeBrother node).reverse ++ node :: walk .afterBrother node =
          entry.children.toList ∧
        walk .child parent = entry.children.toList) := by
  intro host view walk
  have plain := serving_isPlain root [] indexed
  have consistent := serving_isConsistent root indexed
  have walks : ∀ connector node, walk connector node = host.along connector node :=
    fun connector node => plain.gives_along connector node (sessions connector node)
  have above : ∀ node, (view.parent node).answer session = (host.parent node).toOption.join :=
    fun node => (Reading.gives_ask _).map _ session
  have found := Array.getElem?_eq_getElem present
  have found' := Array.getElem?_eq_getElem present'
  simp only [walks]
  refine ⟨mem_below_iff narrow small found found', fun offset => ?_, fun offset => ?_, ?_⟩
  · rw [plain.gives_index_idxOf? other session]
    exact consistent.child_iff
  · exact consistent.afterBrother_iff.trans consistent.beforeBrother_iff.symm
  · intro below
    obtain ⟨parent, under⟩ : ∃ parent, host.parent node = .ok (some parent) := by
      have answered : host.parent node = .ok (Tree.ofCaptured root).entries[node].parent :=
        parent_of_entry found
      rcases named : (Tree.ofCaptured root).entries[node].parent with _ | parent
      · rw [named] at answered
        exact absurd (consistent.root_iff.mpr answered) below
      · exact ⟨parent, answered.trans (congrArg Except.ok named)⟩
    obtain ⟨index, entry, held, visible⟩ := exists_place_of_parent narrow under
    have children : host.visibleChildren parent = entry.children.toList :=
      visibleChildren_eq_children narrow held
    refine ⟨parent, entry, ?_, held, ?_, children⟩
    · rw [above, under]
      rfl
    · exact (consistent.brothers_eq visible).trans children

/-- Below the root stand a node with one child and two leaves: the leaf at the end has the
first of the three as its second brother before it, as it is the second behind the first. -/
theorem connectors_are_converses_threeBrothers :
    let tree : CapturedNode := .node {} [.node {} [.node {} []], .node {} [], .node {} []]
    let view := (serving tree [] true).directView
    let walk := fun connector node =>
      (view.candidates connector node .unbounded).answer (.fresh 0)
    (Tree.ofCaptured tree).IsNarrow ∧ (Tree.ofCaptured tree).size ≤ maxDescendants + 1 ∧
      walk .afterBrother 1 = [3, 4] ∧ (walk .beforeBrother 4)[1]? = some 1 ∧
      walk .descendant 1 = [2] ∧ 1 ∈ walk .ancestor 2 := by
  intro tree view walk
  have narrow : (Tree.ofCaptured tree).IsNarrow := by decide
  have small : (Tree.ofCaptured tree).size ≤ maxDescendants + 1 := by decide
  have behind : walk .afterBrother 1 = [3, 4] := by decide +kernel
  have below : walk .descendant 1 = [2] := by decide +kernel
  obtain ⟨_, _, brothers, _⟩ := connectors_are_converses tree true narrow small 1 4
    (by decide) (by decide) (.fresh 0) (fun _ _ => .fresh 0)
  obtain ⟨ancestors, _⟩ := connectors_are_converses tree true narrow small 1 2
    (by decide) (by decide) (.fresh 0) (fun _ _ => .fresh 0)
  refine ⟨narrow, small, behind, (brothers 1).mp ?_, below, ancestors.mp ?_⟩
  · change (walk .afterBrother 1)[1]? = some 4
    rw [behind]
    rfl
  · change 2 ∈ walk .descendant 1
    rw [below]
    exact List.mem_singleton.mpr rfl

end Host

end TreeSelector

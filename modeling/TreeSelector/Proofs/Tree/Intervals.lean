import TreeSelector.Proofs.Tree.Subtrees

/-!
# What is below a node

What is below a node of a captured tree is laid out right behind it, as the subtrees of its
children one after the other.  So a visit in pre-order that has room enough meets the numbers
from the node up to the end of its subtree, and those are the nodes that have it as an
ancestor.
-/

namespace TreeSelector

namespace Tree

variable {first first' node : Nat} {entries entries' : List Entry} {entry : Entry}

/-- Among entries that are numbered from `first` on, a node is followed by the subtrees of its
children. -/
def HoldsBelow (first : Nat) (entries : List Entry) (node : Nat) (entry : Entry) : Prop :=
  ∃ inherited children,
    entry.children.toList = (entriesOfAll (node + 1) node inherited children).1 ∧
      entry.subtreeEnd =
        node + 1 + (entriesOfAll (node + 1) node inherited children).2.length ∧
      ∀ other found,
        HasEntry (node + 1) (entriesOfAll (node + 1) node inherited children).2 other found →
          HasEntry first entries other found

theorem HoldsBelow.mono (holds : HoldsBelow first entries node entry)
    (among : ∀ other found, HasEntry first entries other found →
      HasEntry first' entries' other found) :
    HoldsBelow first' entries' node entry := by
  obtain ⟨inherited, children, listed, ends, inside⟩ := holds
  exact ⟨inherited, children, listed, ends, fun other found here =>
    among other found (inside other found here)⟩

mutual

theorem entriesOf_holdsBelow (first : Nat) (parent : Option Nat) (inherited : Option String) :
    (captured : CapturedNode) → ∀ node entry,
      HasEntry first (entriesOf first parent inherited captured) node entry →
        HoldsBelow first (entriesOf first parent inherited captured) node entry
  | .node data children => by
      intro node entry found
      have behind : ∀ other found,
          HasEntry (first + 1)
            (entriesOfAll (first + 1) first (data.appId.or inherited) children).2 other found →
          HasEntry first (entriesOf first parent inherited (.node data children)) other found := by
        intro other found here
        rw [entriesOf]
        exact hasEntry_cons_iff.mpr (.inr here)
      rw [entriesOf] at found
      rcases hasEntry_cons_iff.mp found with ⟨rfl, rfl⟩ | later
      · exact ⟨data.appId.or inherited, children, List.toList_toArray, rfl, behind⟩
      · exact (entriesOfAll_holdsBelow (first + 1) first _ children node entry later).mono behind

theorem entriesOfAll_holdsBelow (first parent : Nat) (inherited : Option String) :
    (children : List CapturedNode) → ∀ node entry,
      HasEntry first (entriesOfAll first parent inherited children).2 node entry →
        HoldsBelow first (entriesOfAll first parent inherited children).2 node entry
  | [] => by
      intro node entry found
      simp [entriesOfAll, HasEntry] at found
  | child :: children => by
      intro node entry found
      rw [entriesOfAll] at found ⊢
      rcases hasEntry_append_iff.mp found with here | later
      · exact (entriesOf_holdsBelow first (some parent) inherited child node entry here).mono
          fun other found inside => hasEntry_append_iff.mpr (.inl inside)
      · exact (entriesOfAll_holdsBelow _ parent inherited children node entry later).mono
          fun other found inside => hasEntry_append_iff.mpr (.inr inside)

end

/-- A node of a captured tree is followed by the subtrees of its children. -/
theorem exists_below {root : CapturedNode} {node : Nat} {entry : Entry}
    (found : entry? (ofCaptured root) node = some entry) :
    ∃ inherited children,
      entry.children.toList = (entriesOfAll (node + 1) node inherited children).1 ∧
        entry.subtreeEnd =
          node + 1 + (entriesOfAll (node + 1) node inherited children).2.length ∧
        ∀ other found,
          HasEntry (node + 1) (entriesOfAll (node + 1) node inherited children).2 other found →
            entry? (ofCaptured root) other = some found := by
  obtain ⟨inherited, children, listed, ends, inside⟩ :=
    entriesOf_holdsBelow 0 none none root node entry (hasEntry_ofCaptured_iff.mpr found)
  exact ⟨inherited, children, listed, ends, fun other found here =>
    hasEntry_ofCaptured_iff.mp (inside other found here)⟩

theorem lt_subtreeEnd {root : CapturedNode} {node : Nat} {entry : Entry}
    (found : entry? (ofCaptured root) node = some entry) : node < entry.subtreeEnd := by
  obtain ⟨_, _, _, ends, _⟩ := exists_below found
  exact Nat.lt_of_lt_of_eq (Nat.lt_of_lt_of_le (Nat.lt_succ_self node) (Nat.le_add_right _ _))
    ends.symm

theorem exists_entry_of_lt {root : CapturedNode} {node before : Nat} {entry : Entry}
    (found : entry? (ofCaptured root) node = some entry) (within : before ≤ node) :
    ∃ entry, entry? (ofCaptured root) before = some entry := by
  have inside := Nat.lt_of_le_of_lt within (hasEntry_ofCaptured_iff.mpr found).lt
  rw [Nat.zero_add] at inside
  exact ⟨_, hasEntry_ofCaptured_iff.mp ⟨Nat.zero_le before, List.getElem?_eq_getElem inside⟩⟩

/-- A parent of a node of a captured tree is in the same subtrees as the node, apart from
that of the node. -/
theorem mem_subtree_iff_parent {root : CapturedNode} {top node holder : Nat}
    {head entry : Entry} (foundTop : entry? (ofCaptured root) top = some head)
    (found : entry? (ofCaptured root) node = some entry) (under : entry.parent = some holder) :
    (top < node ∧ node < head.subtreeEnd) ↔ (top ≤ holder ∧ holder < head.subtreeEnd) := by
  have nested := ofCaptured_isNested root
  have here := hasEntry_ofCaptured_iff.mpr found
  have before := (nested.parents node entry holder here under).1
  constructor
  · rintro ⟨after, inside⟩
    obtain ⟨inherited, children, _, ends, laid⟩ := exists_below foundTop
    have below := entriesOfAll_isNested (Nat.lt_succ_self top) inherited children
    have early : node < top + 1 + (entriesOfAll (top + 1) top inherited children).2.length :=
      Nat.lt_of_lt_of_eq inside ends
    have placed : node - (top + 1) <
        (entriesOfAll (top + 1) top inherited children).2.length := by omega
    have again : HasEntry (top + 1) (entriesOfAll (top + 1) top inherited children).2 node
        (entriesOfAll (top + 1) top inherited children).2[node - (top + 1)] :=
      ⟨after, List.getElem?_eq_getElem placed⟩
    have same := laid node _ again
    obtain rfl := Option.some.inj (found.symm.trans same)
    obtain ⟨_, above | above⟩ := below.parents node _ holder again under
    · obtain rfl := Option.some.inj above
      exact ⟨Nat.le_refl _, Nat.lt_trans before inside⟩
    · exact ⟨Nat.le_of_succ_le above, Nat.lt_trans before inside⟩
  · rintro ⟨above, within⟩
    exact ⟨Nat.lt_of_le_of_lt above before, nested.encloses top head node entry holder
      (hasEntry_ofCaptured_iff.mpr foundTop) here under above within⟩

end Tree

namespace Host

variable {host : Host}

section Visits

mutual

/-- A visit to a subtree meets its nodes one after the other, and goes on behind it. -/
theorem visit_entriesOf (first : Nat) (parent : Option Nat) (inherited : Option String)
    (room : Nat) (rest : List Nat) :
    (captured : CapturedNode) →
    (∀ node entry, Tree.HasEntry first (Tree.entriesOf first parent inherited captured) node entry →
      host.visibleChildren node = entry.children.toList) →
    host.visit ((Tree.entriesOf first parent inherited captured).length + room) (first :: rest) =
      List.range' first (Tree.entriesOf first parent inherited captured).length ++
        host.visit room rest
  | .node data children, visible => by
      rw [Tree.entriesOf] at visible ⊢
      have own := visible first _ (Tree.hasEntry_cons_iff.mpr (.inl ⟨rfl, rfl⟩))
      have below := visit_entriesOfAll (first + 1) first (data.appId.or inherited) room rest
        children fun node entry here => visible node entry (Tree.hasEntry_cons_iff.mpr (.inr here))
      rw [List.length_cons, Nat.add_right_comm, visit, own, List.toList_toArray, below,
        List.range'_succ, List.cons_append]

theorem visit_entriesOfAll (first parent : Nat) (inherited : Option String) (room : Nat)
    (rest : List Nat) :
    (children : List CapturedNode) →
    (∀ node entry, Tree.HasEntry first (Tree.entriesOfAll first parent inherited children).2 node
      entry → host.visibleChildren node = entry.children.toList) →
    host.visit ((Tree.entriesOfAll first parent inherited children).2.length + room)
        ((Tree.entriesOfAll first parent inherited children).1 ++ rest) =
      List.range' first (Tree.entriesOfAll first parent inherited children).2.length ++
        host.visit room rest
  | [], _ => by
      simp [Tree.entriesOfAll]
  | child :: children, visible => by
      rw [Tree.entriesOfAll] at visible ⊢
      have front := visit_entriesOf first (some parent) inherited
        ((Tree.entriesOfAll (first + (Tree.entriesOf first (some parent) inherited child).length)
          parent inherited children).2.length + room)
        ((Tree.entriesOfAll (first + (Tree.entriesOf first (some parent) inherited child).length)
          parent inherited children).1 ++ rest) child
        fun node entry here => visible node entry (Tree.hasEntry_append_iff.mpr (.inl here))
      have back := visit_entriesOfAll
        (first + (Tree.entriesOf first (some parent) inherited child).length) parent inherited
        room rest children
        fun node entry here => visible node entry (Tree.hasEntry_append_iff.mpr (.inr here))
      rw [List.length_append, Nat.add_assoc, List.cons_append, front, back, ← List.append_assoc,
        List.range'_append_1]

end

end Visits

/-- A walk visits all children of a node, if no node has too many. -/
theorem visibleChildren_eq_children {root : CapturedNode} {indexed : Bool}
    (narrow : (Tree.ofCaptured root).IsNarrow) {node : Nat} {entry : Entry}
    (found : Tree.entry? (Tree.ofCaptured root) node = some entry) :
    (serving root [] indexed).visibleChildren node = entry.children.toList := by
  have accessed : (serving root [] indexed).access node = .ok entry :=
    (access_eq_ok_iff rfl).mpr found
  rw [visibleChildren, accessed]
  exact List.take_of_length_le (narrow.size_le found)

/-- With room enough, a visit meets the numbers behind a node up to the end of its subtree. -/
theorem visit_visibleChildren {root : CapturedNode} {indexed : Bool}
    (narrow : (Tree.ofCaptured root).IsNarrow) {node room : Nat} {entry : Entry}
    (found : Tree.entry? (Tree.ofCaptured root) node = some entry)
    (enough : entry.subtreeEnd ≤ node + 1 + room) :
    let host := serving root [] indexed
    host.visit room (host.visibleChildren node) =
      List.range' (node + 1) (entry.subtreeEnd - (node + 1)) := by
  intro host
  have visible : ∀ other held, Tree.entry? (Tree.ofCaptured root) other = some held →
      host.visibleChildren other = held.children.toList :=
    fun other held present => visibleChildren_eq_children narrow present
  obtain ⟨inherited, children, listed, ends, laid⟩ := Tree.exists_below found
  have met := visit_entriesOfAll (node + 1) node inherited
    (room - (Tree.entriesOfAll (node + 1) node inherited children).2.length) [] children
    fun other held here => visible other held (laid other held here)
  rw [ends] at enough ⊢
  have nothing : ∀ room, host.visit room [] = [] := by
    intro room
    cases room <;> rfl
  have few : (Tree.entriesOfAll (node + 1) node inherited children).2.length ≤ room :=
    Nat.le_of_add_le_add_left enough
  rw [Nat.add_sub_cancel_left, visible node entry found, listed]
  rwa [List.append_nil, nothing, List.append_nil, Nat.add_sub_cancel' few] at met

end Host

end TreeSelector

import TreeSelector.Tree.Host

/-!
# Served trees

A captured tree as a host serves it after some of its subtrees were detached.
Since nodes are numbered in pre-order, every child has a greater number than its
parent, and so has whatever a walk meets below a node.
-/

namespace TreeSelector

namespace Tree

/-- Every child of the entries, numbered from `first` on, comes after its parent. -/
def ChildrenFollow (first : Nat) (entries : List Entry) : Prop :=
  ∀ (position : Nat) (entry : Entry), entries[position]? = some entry →
    ∀ child : Nat, child ∈ entry.children → first + position < child

theorem ChildrenFollow.append {first : Nat} {entries others : List Entry}
    (front : ChildrenFollow first entries)
    (back : ChildrenFollow (first + entries.length) others) :
    ChildrenFollow first (entries ++ others) := by
  intro position entry found child member
  rcases Nat.lt_or_ge position entries.length with inside | beyond
  · rw [List.getElem?_append_left inside] at found
    exact front position entry found child member
  · rw [List.getElem?_append_right beyond] at found
    have later := back _ entry found child member
    omega

mutual

theorem entriesOf_childrenFollow (first : Nat) (parent : Option NodeId)
    (inherited : Option String) :
    (node : CapturedNode) → ChildrenFollow first (entriesOf first parent inherited node)
  | .node data children => by
      obtain ⟨numbered, below⟩ :=
        entriesOfAll_childrenFollow (first + 1) first (data.appId.or inherited) children
      intro position entry found child member
      rw [entriesOf] at found
      cases position with
      | zero =>
          simp only [List.getElem?_cons_zero, Option.some.injEq] at found
          subst found
          have after := numbered child (by simpa using member)
          omega
      | succ position =>
          have later := below position entry (by simpa using found) child member
          omega

theorem entriesOfAll_childrenFollow (first parent : Nat) (inherited : Option String) :
    (children : List CapturedNode) →
      (∀ number : Nat, number ∈ (entriesOfAll first parent inherited children).1 →
        first ≤ number) ∧
        ChildrenFollow first (entriesOfAll first parent inherited children).2
  | [] => by simp [entriesOfAll, ChildrenFollow]
  | child :: children => by
      have front := entriesOf_childrenFollow first (some parent) inherited child
      obtain ⟨numbered, back⟩ := entriesOfAll_childrenFollow
        (first + (entriesOf first (some parent) inherited child).length) parent inherited
        children
      rw [entriesOfAll]
      refine ⟨?_, front.append back⟩
      intro number member
      rcases List.mem_cons.mp member with here | later
      · exact Nat.le_of_eq here.symm
      · exact Nat.le_trans (Nat.le_add_right _ _) (numbered number later)

end

/-- In a captured tree every child comes after its parent. -/
theorem lt_child_of_ofCaptured {root : CapturedNode} {node child : Nat} {entry : Entry}
    (found : entry? (ofCaptured root) node = some entry) (member : child ∈ entry.children) :
    node < child := by
  have follow := entriesOf_childrenFollow 0 none none root node entry
    (by simpa [ofCaptured, entry?] using found) child member
  omega

end Tree

namespace Host

/-- A host of a captured tree from which the subtrees of some nodes were detached,
one after the other. -/
def serving (root : CapturedNode) (gone : List NodeId) (indexed : Bool) : Host :=
  gone.foldl detach { tree := Tree.ofCaptured root, indexed }

/-- Nothing but detached subtrees keeps the tree from being read. -/
structure IsPlain (host : Host) : Prop where
  noHoles : host.holes = []
  noPoison : host.poisoned = []
  rooted : host.rootless = false

/-- Detaching changes nothing but what is detached. -/
theorem detach_eq (host : Host) (node : NodeId) :
    ∃ detached, host.detach node = { host with detached } := by
  unfold detach
  split
  · exact ⟨_, rfl⟩
  · exact ⟨host.detached, rfl⟩

theorem foldl_detach_eq (host : Host) (gone : List NodeId) :
    ∃ detached, gone.foldl detach host = { host with detached } := by
  induction gone generalizing host with
  | nil => exact ⟨host.detached, rfl⟩
  | cons node gone hypothesis =>
      obtain ⟨first, eqFirst⟩ := host.detach_eq node
      obtain ⟨all, eqAll⟩ := hypothesis (host.detach node)
      exact ⟨all, by rw [List.foldl_cons, eqAll, eqFirst]⟩

theorem serving_isPlain (root : CapturedNode) (gone : List NodeId) (indexed : Bool) :
    (serving root gone indexed).IsPlain := by
  obtain ⟨detached, same⟩ :=
    foldl_detach_eq { tree := Tree.ofCaptured root, indexed } gone
  rw [serving, same]
  exact ⟨rfl, rfl, rfl⟩

@[simp]
theorem tree_serving (root : CapturedNode) (gone : List NodeId) (indexed : Bool) :
    (serving root gone indexed).tree = Tree.ofCaptured root := by
  obtain ⟨detached, same⟩ :=
    foldl_detach_eq { tree := Tree.ofCaptured root, indexed } gone
  rw [serving, same]

/-- The children of a node come after it. -/
def ChildrenFollow (host : Host) : Prop :=
  ∀ node, ∀ child ∈ host.visibleChildren node, node < child

theorem serving_childrenFollow (root : CapturedNode) (gone : List NodeId)
    (indexed : Bool) : (serving root gone indexed).ChildrenFollow := by
  intro node child member
  unfold visibleChildren access at member
  split at member
  · rename_i entry accessed
    split at accessed
    · exact absurd accessed (by simp)
    · rw [tree_serving] at accessed
      cases found : Tree.entry? (Tree.ofCaptured root) node with
      | none => simp [found] at accessed
      | some entry' =>
          obtain rfl : entry' = entry := by simpa [found] using accessed
          have listed : child ∈ entry'.children := by
            simpa using List.mem_of_mem_take member
          exact Tree.lt_child_of_ofCaptured found listed
  · exact absurd member (List.not_mem_nil)

/-- A walk below nodes that come after `bound` meets only nodes that do. -/
theorem lt_of_mem_visit {host : Host} (follow : host.ChildrenFollow) {bound : NodeId}
    {room : Nat} {pending : List NodeId} (after : ∀ node ∈ pending, bound < node) :
    ∀ node ∈ host.visit room pending, bound < node := by
  induction room generalizing pending with
  | zero => simp [visit]
  | succ room hypothesis =>
      cases pending with
      | nil => simp [visit]
      | cons first pending =>
          have firstAfter : bound < first := after first List.mem_cons_self
          intro node member
          rw [visit] at member
          rcases List.mem_cons.mp member with here | later
          · exact here ▸ firstAfter
          · refine hypothesis ?_ node later
            intro next nextMember
            rcases List.mem_append.mp nextMember with below | beside
            · exact Nat.lt_trans firstAfter (follow first next below)
            · exact after next (List.mem_cons_of_mem _ beside)

end Host

end TreeSelector

import TreeSelector.Proofs.Tree.Family

/-!
# Subtrees

The numbers of a subtree go from its top up to its end, so whatever has its parent in a
subtree is in it too.  What was detached is made of subtrees: the parent of a node that can
still be accessed can be accessed as well.
-/

namespace TreeSelector

namespace Tree

variable {first : Nat} {parent : Option Nat} {entries others : List Entry}

/-- Entries, numbered from `first` on, in which whatever is below the top of a subtree is
numbered before its end. -/
structure IsNested (first : Nat) (parent : Option Nat) (entries : List Entry) : Prop where
  ends : ∀ (top : Nat) (head : Entry), HasEntry first entries top head →
    head.subtreeEnd ≤ first + entries.length
  parents : ∀ (node : Nat) (entry : Entry) (holder : Nat), HasEntry first entries node entry →
    entry.parent = some holder → holder < node ∧ (parent = some holder ∨ first ≤ holder)
  encloses : ∀ (top : Nat) (head : Entry) (node : Nat) (entry : Entry) (holder : Nat),
    HasEntry first entries top head → HasEntry first entries node entry →
      entry.parent = some holder → top ≤ holder → holder < head.subtreeEnd → node < head.subtreeEnd

theorem IsNested.nil (first : Nat) (parent : Option Nat) : IsNested first parent [] where
  ends := fun top head found => by simp [HasEntry] at found
  parents := fun node entry holder found => by simp [HasEntry] at found
  encloses := fun top head node entry holder found => by simp [HasEntry] at found

/-- Siblings do not enclose one another. -/
theorem IsNested.append (outside : ∀ holder : Nat, parent = some holder → holder < first)
    (front : IsNested first parent entries)
    (back : IsNested (first + entries.length) parent others) :
    IsNested first parent (entries ++ others) where
  ends := by
    intro top head found
    rw [List.length_append]
    rcases hasEntry_append_iff.mp found with found | found
    · exact Nat.le_trans (front.ends top head found) (by omega)
    · exact Nat.le_trans (back.ends top head found) (by omega)
  parents := by
    intro node entry holder found under
    rcases hasEntry_append_iff.mp found with found | found
    · exact front.parents node entry holder found under
    · obtain ⟨before, above⟩ := back.parents node entry holder found under
      exact ⟨before, above.imp_right (by omega)⟩
  encloses := by
    intro top head node entry holder foundTop found under after before
    rcases hasEntry_append_iff.mp foundTop with foundTop | foundTop <;>
      rcases hasEntry_append_iff.mp found with found | found
    · exact front.encloses top head node entry holder foundTop found under after before
    · obtain ⟨_, given | late⟩ := back.parents node entry holder found under
      · have early := outside holder given
        have late : first ≤ top := foundTop.1
        omega
      · have inside := Nat.lt_of_lt_of_le before (front.ends top head foundTop)
        omega
    · have above := (front.parents node entry holder found under).1
      have inside := found.lt
      have beyond := foundTop.1
      omega
    · exact back.encloses top head node entry holder foundTop found under after before

/-- A node encloses what is below it. -/
theorem IsNested.cons {head : Entry}
    (outside : ∀ holder : Nat, parent = some holder → holder < first)
    (below : IsNested (first + 1) (some first) entries) (same : head.parent = parent)
    (ends : head.subtreeEnd = first + 1 + entries.length) :
    IsNested first parent (head :: entries) where
  ends := by
    intro top head' found
    rw [List.length_cons]
    rcases hasEntry_cons_iff.mp found with ⟨rfl, rfl⟩ | found
    · exact Nat.le_of_eq (ends.trans (Nat.add_right_comm _ 1 _))
    · exact Nat.le_trans (below.ends top head' found) (by omega)
  parents := by
    intro node entry holder found under
    rcases hasEntry_cons_iff.mp found with ⟨rfl, rfl⟩ | found
    · rw [same] at under
      exact ⟨outside holder under, .inl under⟩
    · obtain ⟨before, here | inside⟩ := below.parents node entry holder found under
      · exact ⟨before, .inr (Nat.le_of_eq (Option.some.inj here))⟩
      · exact ⟨before, .inr (by omega)⟩
  encloses := by
    intro top head' node entry holder foundTop found under after before
    rcases hasEntry_cons_iff.mp found with ⟨_, rfl⟩ | inner
    · rw [same] at under
      have early := outside holder under
      rcases hasEntry_cons_iff.mp foundTop with ⟨here, _⟩ | innerTop
      · omega
      · have late : first + 1 ≤ top := innerTop.1
        omega
    · rcases hasEntry_cons_iff.mp foundTop with ⟨_, rfl⟩ | innerTop
      · exact Nat.lt_of_lt_of_eq inner.lt ends.symm
      · exact below.encloses top head' node entry holder innerTop inner under after before

mutual

theorem entriesOf_isNested {first : Nat} {parent : Option Nat}
    (outside : ∀ holder : Nat, parent = some holder → holder < first) (inherited : Option String) :
    (node : CapturedNode) → IsNested first parent (entriesOf first parent inherited node)
  | .node data children => by
      rw [entriesOf]
      exact (entriesOfAll_isNested (Nat.lt_succ_self first) (data.appId.or inherited)
        children).cons outside rfl rfl

theorem entriesOfAll_isNested {first parent : Nat} (outside : parent < first)
    (inherited : Option String) :
    (children : List CapturedNode) →
      IsNested first (some parent) (entriesOfAll first parent inherited children).2
  | [] => by
      rw [entriesOfAll]
      exact .nil first (some parent)
  | child :: children => by
      have above : ∀ holder : Nat, some parent = some holder → holder < first := by
        rintro _ ⟨⟩
        exact outside
      have front := entriesOf_isNested above inherited child
      have back := entriesOfAll_isNested (Nat.lt_of_lt_of_le outside (Nat.le_add_right first
        (entriesOf first (some parent) inherited child).length)) inherited children
      rw [entriesOfAll]
      exact front.append above back

end

theorem ofCaptured_isNested (root : CapturedNode) :
    IsNested 0 none (entriesOf 0 none none root) :=
  entriesOf_isNested (fun _ given => (Option.some_ne_none _ given.symm).elim) none root

end Tree

namespace Host

/-- What is detached is the subtree of a node. -/
theorem exists_entry_of_mem_detached {root : CapturedNode} {gone : List NodeId} {indexed : Bool}
    {interval : Interval} (member : interval ∈ (serving root gone indexed).detached) :
    ∃ entry, Tree.entry? (Tree.ofCaptured root) interval.first = some entry ∧
      interval.bound = entry.subtreeEnd := by
  suffices every : ∀ host : Host, host.tree = Tree.ofCaptured root →
      interval ∈ (gone.foldl detach host).detached → interval ∈ host.detached ∨
        ∃ entry, Tree.entry? (Tree.ofCaptured root) interval.first = some entry ∧
          interval.bound = entry.subtreeEnd by
    rcases every _ rfl member with before | found
    · exact absurd before List.not_mem_nil
    · exact found
  clear member
  induction gone with
  | nil => exact fun host _ member => .inl member
  | cons node gone hypothesis =>
      intro host same member
      have kept : (host.detach node).tree = Tree.ofCaptured root := by
        obtain ⟨detached, eq⟩ := host.detach_eq node
        rw [eq]
        exact same
      rcases hypothesis _ kept member with before | found
      · unfold detach at before
        split at before
        · rename_i entry found
          rw [same] at found
          rcases List.mem_cons.mp before with rfl | before
          · exact .inr ⟨entry, found, rfl⟩
          · exact .inl before
        · exact .inl before
      · exact .inr found

theorem isLive_iff {host : Host} {node : NodeId} :
    host.isLive node = true ↔
      host.isDetached node = false ∧ ∃ entry, host.tree.entry? node = some entry := by
  unfold isLive access
  cases host.isDetached node <;> cases host.tree.entry? node <;> simp [Except.toBool]

/-- The parent of a node that can be accessed can be accessed. -/
def IsUpwardLive (host : Host) : Prop :=
  ∀ node holder, host.isLive node = true → host.parent node = .ok (some holder) →
    host.isLive holder = true

theorem serving_isUpwardLive (root : CapturedNode) (gone : List NodeId) (indexed : Bool) :
    (serving root gone indexed).IsUpwardLive := by
  intro node holder live under
  obtain ⟨entry, accessed, named⟩ := parent_eq_ok_iff.mp under
  obtain ⟨attached, entry', found⟩ := isLive_iff.mp live
  rw [access, attached, found] at accessed
  obtain rfl : entry' = entry := Except.ok.inj accessed
  rw [tree_serving] at found
  have nested := Tree.ofCaptured_isNested root
  have here := Tree.hasEntry_ofCaptured_iff.mpr found
  have before := (nested.parents node entry' holder here named).1
  refine isLive_iff.mpr ⟨?_, ?_⟩
  · by_contra detached
    rw [Bool.not_eq_false, isDetached, List.any_eq_true] at detached
    obtain ⟨interval, member, inside⟩ := detached
    obtain ⟨head, top, bound⟩ := exists_entry_of_mem_detached member
    rw [Bool.and_eq_true, decide_eq_true_iff, decide_eq_true_iff, bound] at inside
    have enclosed := nested.encloses interval.first head node entry' holder
      (Tree.hasEntry_ofCaptured_iff.mpr top) here named inside.1 inside.2
    have gone : (serving root gone indexed).isDetached node = true := by
      refine List.any_eq_true.mpr ⟨interval, member, ?_⟩
      rw [Bool.and_eq_true, decide_eq_true_iff, decide_eq_true_iff, bound]
      exact ⟨Nat.le_of_lt (Nat.lt_of_le_of_lt inside.1 before), enclosed⟩
    rw [attached] at gone
    cases gone
  · rw [tree_serving]
    have last := Nat.lt_trans before here.lt
    rw [Nat.zero_add] at last
    exact ⟨_, Tree.hasEntry_ofCaptured_iff.mp
      ⟨Nat.zero_le holder, List.getElem?_eq_getElem last⟩⟩

end Host

end TreeSelector

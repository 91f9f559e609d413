import Mathlib.Data.List.Pairwise
import TreeSelector.Proofs.Tree.Served

/-!
# Parents and children

In a captured tree parents and children know one another: a child names the node that
lists it as its parent, a node with a parent is listed there, and nothing is listed
twice.  Only the root has no parent.  A host serves such a tree faithfully as long as
nothing was detached from it.
-/

namespace TreeSelector

namespace Tree

section Layout

variable {first : Nat} {entries others : List Entry} {node : Nat} {entry : Entry}

/-- The entry of a node among entries that are numbered from `first` on. -/
def HasEntry (first : Nat) (entries : List Entry) (node : Nat) (entry : Entry) : Prop :=
  first ≤ node ∧ entries[node - first]? = some entry

theorem HasEntry.lt (found : HasEntry first entries node entry) :
    node < first + entries.length := by
  obtain ⟨after, found⟩ := found
  have inside := (List.getElem?_eq_some_iff.mp found).1
  omega

theorem hasEntry_cons_iff {head : Entry} :
    HasEntry first (head :: entries) node entry ↔
      node = first ∧ entry = head ∨ HasEntry (first + 1) entries node entry := by
  unfold HasEntry
  rcases Nat.lt_trichotomy node first with before | here | after
  · constructor
    · rintro ⟨later, _⟩
      omega
    · rintro (⟨same, _⟩ | ⟨later, _⟩) <;> omega
  · subst here
    constructor
    · rintro ⟨_, found⟩
      rw [Nat.sub_self, List.getElem?_cons_zero] at found
      exact .inl ⟨rfl, (Option.some.inj found).symm⟩
    · rintro (⟨_, rfl⟩ | ⟨later, _⟩)
      · exact ⟨Nat.le_refl _, by rw [Nat.sub_self, List.getElem?_cons_zero]⟩
      · omega
  · obtain ⟨distance, rfl⟩ := Nat.exists_eq_add_of_lt after
    have behind : first + distance + 1 - first = distance + 1 := by omega
    have below : first + distance + 1 - (first + 1) = distance := by omega
    rw [behind, below, List.getElem?_cons_succ]
    constructor
    · rintro ⟨_, found⟩
      exact .inr ⟨by omega, found⟩
    · rintro (⟨same, _⟩ | ⟨_, found⟩)
      · omega
      · exact ⟨by omega, found⟩

theorem hasEntry_append_iff :
    HasEntry first (entries ++ others) node entry ↔
      HasEntry first entries node entry ∨
        HasEntry (first + entries.length) others node entry := by
  unfold HasEntry
  rcases Nat.lt_or_ge node (first + entries.length) with inside | beyond
  · constructor
    · rintro ⟨after, found⟩
      rw [List.getElem?_append_left (by omega)] at found
      exact .inl ⟨after, found⟩
    · rintro (⟨after, found⟩ | ⟨later, _⟩)
      · exact ⟨after, by rw [List.getElem?_append_left (by omega), found]⟩
      · omega
  · have shifted : node - first - entries.length = node - (first + entries.length) := by omega
    constructor
    · rintro ⟨after, found⟩
      rw [List.getElem?_append_right (by omega), shifted] at found
      exact .inr ⟨beyond, found⟩
    · rintro (found | ⟨_, found⟩)
      · have inside := (HasEntry.lt found)
        omega
      · exact ⟨by omega, by rw [List.getElem?_append_right (by omega), shifted, found]⟩

/-- Entries, numbered from `first` on, of the subtrees of some siblings `tops`: the
siblings have the given parent, and below them parents and children know one another. -/
structure IsFamily (first : Nat) (parent : Option Nat) (tops : List Nat)
    (entries : List Entry) : Prop where
  ascending : tops.Pairwise (· < ·)
  top : ∀ node ∈ tops, ∃ entry, HasEntry first entries node entry ∧ entry.parent = parent
  listed : ∀ node entry, HasEntry first entries node entry →
    node ∈ tops ∧ entry.parent = parent ∨
      ∃ holder held, entry.parent = some holder ∧ HasEntry first entries holder held ∧
        node ∈ held.children.toList
  lists : ∀ holder held, HasEntry first entries holder held →
    held.children.toList.Pairwise (· < ·) ∧
      ∀ node ∈ held.children.toList, ∃ entry,
        HasEntry first entries node entry ∧ entry.parent = some holder

theorem IsFamily.nil (first : Nat) (parent : Option Nat) : IsFamily first parent [] [] where
  ascending := .nil
  top := fun node member => absurd member List.not_mem_nil
  listed := fun node entry found => by simp [HasEntry] at found
  lists := fun holder held found => by simp [HasEntry] at found

/-- Siblings are a family together. -/
theorem IsFamily.append {parent : Option Nat} {tops tops' : List Nat}
    (front : IsFamily first parent tops entries)
    (back : IsFamily (first + entries.length) parent tops' others) :
    IsFamily first parent (tops ++ tops') (entries ++ others) where
  ascending := by
    refine List.pairwise_append.mpr ⟨front.ascending, back.ascending, ?_⟩
    intro node member node' member'
    obtain ⟨entry, found, _⟩ := front.top node member
    obtain ⟨entry', found', _⟩ := back.top node' member'
    exact Nat.lt_of_lt_of_le found.lt found'.1
  top := by
    intro node member
    rcases List.mem_append.mp member with before | behind
    · obtain ⟨entry, found, same⟩ := front.top node before
      exact ⟨entry, hasEntry_append_iff.mpr (.inl found), same⟩
    · obtain ⟨entry, found, same⟩ := back.top node behind
      exact ⟨entry, hasEntry_append_iff.mpr (.inr found), same⟩
  listed := by
    intro node entry found
    rcases hasEntry_append_iff.mp found with before | behind
    · rcases front.listed node entry before with
        ⟨top, same⟩ | ⟨holder, held, same, present, member⟩
      · exact .inl ⟨List.mem_append_left _ top, same⟩
      · exact .inr ⟨holder, held, same, hasEntry_append_iff.mpr (.inl present), member⟩
    · rcases back.listed node entry behind with
        ⟨top, same⟩ | ⟨holder, held, same, present, member⟩
      · exact .inl ⟨List.mem_append_right _ top, same⟩
      · exact .inr ⟨holder, held, same, hasEntry_append_iff.mpr (.inr present), member⟩
  lists := by
    intro holder held found
    rcases hasEntry_append_iff.mp found with before | behind
    · obtain ⟨ascending, children⟩ := front.lists holder held before
      refine ⟨ascending, fun node member => ?_⟩
      obtain ⟨entry, inner, same⟩ := children node member
      exact ⟨entry, hasEntry_append_iff.mpr (.inl inner), same⟩
    · obtain ⟨ascending, children⟩ := back.lists holder held behind
      refine ⟨ascending, fun node member => ?_⟩
      obtain ⟨entry, inner, same⟩ := children node member
      exact ⟨entry, hasEntry_append_iff.mpr (.inr inner), same⟩

/-- A node is a family with the family of its children. -/
theorem IsFamily.cons {parent : Option Nat} {numbers : List Nat} {head : Entry}
    (below : IsFamily (first + 1) (some first) numbers entries) (same : head.parent = parent)
    (children : head.children.toList = numbers) :
    IsFamily first parent [first] (head :: entries) where
  ascending := List.pairwise_singleton _ _
  top := by
    intro node member
    obtain rfl := List.mem_singleton.mp member
    exact ⟨head, hasEntry_cons_iff.mpr (.inl ⟨rfl, rfl⟩), same⟩
  listed := by
    intro node entry found
    rcases hasEntry_cons_iff.mp found with ⟨rfl, rfl⟩ | later
    · exact .inl ⟨List.mem_singleton.mpr rfl, same⟩
    · rcases below.listed node entry later with
        ⟨top, named⟩ | ⟨holder, held, named, present, member⟩
      · exact .inr ⟨first, head, named, hasEntry_cons_iff.mpr (.inl ⟨rfl, rfl⟩),
          children ▸ top⟩
      · exact .inr ⟨holder, held, named, hasEntry_cons_iff.mpr (.inr present), member⟩
  lists := by
    intro holder held found
    rcases hasEntry_cons_iff.mp found with ⟨rfl, rfl⟩ | later
    · rw [children]
      refine ⟨below.ascending, fun node member => ?_⟩
      obtain ⟨entry, inner, named⟩ := below.top node member
      exact ⟨entry, hasEntry_cons_iff.mpr (.inr inner), named⟩
    · obtain ⟨ascending, listed⟩ := below.lists holder held later
      refine ⟨ascending, fun node member => ?_⟩
      obtain ⟨entry, inner, named⟩ := listed node member
      exact ⟨entry, hasEntry_cons_iff.mpr (.inr inner), named⟩

mutual

theorem entriesOf_isFamily (first : Nat) (parent : Option Nat)
    (inherited : Option String) :
    (node : CapturedNode) →
      IsFamily first parent [first] (entriesOf first parent inherited node)
  | .node data children => by
      rw [entriesOf]
      exact (entriesOfAll_isFamily (first + 1) first (data.appId.or inherited) children).cons
        rfl List.toList_toArray

theorem entriesOfAll_isFamily (first parent : Nat) (inherited : Option String) :
    (children : List CapturedNode) →
      IsFamily first (some parent) (entriesOfAll first parent inherited children).1
        (entriesOfAll first parent inherited children).2
  | [] => by
      rw [entriesOfAll]
      exact .nil first (some parent)
  | child :: children => by
      rw [entriesOfAll]
      exact (entriesOf_isFamily first (some parent) inherited child).append
        (entriesOfAll_isFamily _ parent inherited children)

end

end Layout

theorem hasEntry_ofCaptured_iff {root : CapturedNode} {node : Nat} {entry : Entry} :
    HasEntry 0 (entriesOf 0 none none root) node entry ↔
      entry? (ofCaptured root) node = some entry := by
  simp [HasEntry, ofCaptured, entry?]

/-- No node of a captured tree has more children than a walk visits. -/
def IsNarrow (tree : Tree) : Prop :=
  ∀ entry ∈ tree.entries.toList, entry.children.size ≤ maxChildren

instance (tree : Tree) : Decidable tree.IsNarrow :=
  inferInstanceAs
    (Decidable (∀ entry ∈ tree.entries.toList, entry.children.size ≤ maxChildren))

theorem IsNarrow.size_le {tree : Tree} (narrow : tree.IsNarrow) {node : Nat} {entry : Entry}
    (found : tree.entry? node = some entry) : entry.children.size ≤ maxChildren :=
  narrow entry (Array.mem_toList_iff.mpr (Array.mem_of_getElem? found))

end Tree

namespace Host

variable {host : Host} {node parent child : NodeId} {index : Nat}

theorem access_eq_ok_iff (whole : host.detached = []) {entry : Entry} :
    host.access node = .ok entry ↔ host.tree.entry? node = some entry := by
  unfold access isDetached
  rw [whole]
  cases host.tree.entry? node <;> simp

/-- What can be accessed is in the tree, whatever was detached. -/
theorem entry?_of_access {entry : Entry} (accessed : host.access node = .ok entry) :
    host.tree.entry? node = some entry := by
  unfold access at accessed
  split at accessed
  · cases accessed
  · cases found : host.tree.entry? node with
    | none =>
        rw [found] at accessed
        cases accessed
    | some entry' =>
        rw [found] at accessed
        rw [Except.ok.inj accessed]

theorem child_eq_ok_iff :
    host.child parent index = .ok (some child) ↔
      ∃ entry, host.access parent = .ok entry ∧ entry.children[index]? = some child := by
  unfold Host.child
  cases host.access parent with
  | error error => exact ⟨nofun, fun ⟨_, accessed, _⟩ => nomatch accessed⟩
  | ok entry =>
      constructor
      · intro produced
        exact ⟨entry, rfl, Except.ok.inj produced⟩
      · rintro ⟨_, ⟨⟩, produced⟩
        exact congrArg Except.ok produced

theorem parent_eq_ok_iff {answer : Option NodeId} :
    host.parent node = .ok answer ↔
      ∃ entry, host.access node = .ok entry ∧ entry.parent = answer := by
  unfold Host.parent
  cases host.access node with
  | error error => exact ⟨nofun, fun ⟨_, accessed, _⟩ => nomatch accessed⟩
  | ok entry =>
      constructor
      · intro answered
        exact ⟨entry, rfl, Except.ok.inj answered⟩
      · rintro ⟨_, ⟨⟩, answered⟩
        exact congrArg Except.ok answered

/-- A host whose answers about parents and children agree with one another. -/
structure IsConsistent (host : Host) : Prop where
  parent_of_child : ∀ {parent child : NodeId} {index : Nat},
    host.child parent index = .ok (some child) → host.parent child = .ok (some parent)
  child_of_parent : ∀ {parent child : NodeId},
    host.parent child = .ok (some parent) → ∃ index, host.child parent index = .ok (some child)
  index_unique : ∀ {parent child : NodeId} {index index' : Nat},
    host.child parent index = .ok (some child) →
      host.child parent index' = .ok (some child) → index = index'
  root_iff : ∀ {node : NodeId}, host.root = .ok node ↔ host.parent node = .ok none

/-- A captured tree from which nothing was detached is served consistently. -/
theorem serving_isConsistent (root : CapturedNode) (indexed : Bool) :
    (serving root [] indexed).IsConsistent := by
  have family := Tree.entriesOf_isFamily 0 none none root
  have access : ∀ {node : NodeId} {entry : Entry},
      (serving root [] indexed).access node = .ok entry ↔
        Tree.HasEntry 0 (Tree.entriesOf 0 none none root) node entry :=
    fun {node entry} => (access_eq_ok_iff rfl).trans Tree.hasEntry_ofCaptured_iff.symm
  refine ⟨?_, ?_, ?_, ?_⟩
  · intro parent child index produced
    obtain ⟨held, present, listed⟩ := child_eq_ok_iff.mp produced
    obtain ⟨entry, found, named⟩ := (family.lists parent held (access.mp present)).2 child
      (Array.mem_toList_iff.mpr (Array.mem_of_getElem? listed))
    exact parent_eq_ok_iff.mpr ⟨entry, access.mpr found, named⟩
  · intro parent child answered
    obtain ⟨entry, found, named⟩ := parent_eq_ok_iff.mp answered
    rcases family.listed child entry (access.mp found) with
      ⟨_, orphan⟩ | ⟨holder, held, same, present, member⟩
    · rw [named] at orphan
      cases orphan
    · obtain rfl : parent = holder := Option.some.inj (named.symm.trans same)
      obtain ⟨index, listed⟩ := List.mem_iff_getElem?.mp member
      exact ⟨index, child_eq_ok_iff.mpr ⟨held, access.mpr present, by simpa using listed⟩⟩
  · intro parent child index index' produced produced'
    obtain ⟨held, present, listed⟩ := child_eq_ok_iff.mp produced
    obtain ⟨held', present', listed'⟩ := child_eq_ok_iff.mp produced'
    obtain rfl : held = held' := Except.ok.inj (present.symm.trans present')
    have distinct : held.children.toList.Nodup :=
      (family.lists parent held (access.mp present)).1.imp Nat.ne_of_lt
    rw [← Array.getElem?_toList] at listed listed'
    have inside := (List.getElem?_eq_some_iff.mp listed).1
    exact (List.getElem?_inj inside distinct).mp (listed.trans listed'.symm)
  · intro node
    obtain ⟨entry, found, orphan⟩ := family.top 0 (List.mem_singleton.mpr rfl)
    have rooted : (serving root [] indexed).root = .ok 0 := by
      unfold Host.root
      rw [access.mpr found]
      rfl
    rw [rooted]
    constructor
    · rintro ⟨⟩
      exact parent_eq_ok_iff.mpr ⟨entry, access.mpr found, orphan⟩
    · intro answered
      obtain ⟨entry', found', orphan'⟩ := parent_eq_ok_iff.mp answered
      rcases family.listed node entry' (access.mp found') with ⟨top, _⟩ | ⟨_, _, named, _⟩
      · rw [List.mem_singleton.mp top]
      · rw [orphan'] at named
        cases named

/-- Every child that is produced comes after its parent, and is produced at one place. -/
structure IsTreelike (host : Host) : Prop where
  lt_child : ∀ {parent child : NodeId} {index : Nat},
    host.child parent index = .ok (some child) → parent < child
  place_unique : ∀ {parent parent' child : NodeId} {index index' : Nat},
    host.child parent index = .ok (some child) → host.child parent' index' = .ok (some child) →
      parent = parent' ∧ index = index'

/-- What is produced after subtrees were detached was produced before. -/
theorem serving_child_of_detached {root : CapturedNode} {gone : List NodeId} {indexed : Bool}
    (produced : (serving root gone indexed).child parent index = .ok (some child)) :
    (serving root [] indexed).child parent index = .ok (some child) := by
  obtain ⟨entry, accessed, listed⟩ := child_eq_ok_iff.mp produced
  have found := entry?_of_access accessed
  rw [tree_serving] at found
  exact child_eq_ok_iff.mpr ⟨entry, (access_eq_ok_iff rfl).mpr found, listed⟩

/-- A captured tree is served as a tree, whatever was detached. -/
theorem serving_isTreelike (root : CapturedNode) (gone : List NodeId) (indexed : Bool) :
    (serving root gone indexed).IsTreelike where
  lt_child := by
    intro parent child index produced
    obtain ⟨entry, accessed, listed⟩ := child_eq_ok_iff.mp (serving_child_of_detached produced)
    have found := (access_eq_ok_iff rfl).mp accessed
    rw [tree_serving] at found
    exact Tree.lt_child_of_ofCaptured found (Array.mem_of_getElem? listed)
  place_unique := by
    intro parent parent' child index index' produced produced'
    have consistent := serving_isConsistent root indexed
    have under := consistent.parent_of_child (serving_child_of_detached produced)
    have under' := consistent.parent_of_child (serving_child_of_detached produced')
    obtain rfl : parent = parent' := Option.some.inj (Except.ok.inj (under.symm.trans under'))
    exact ⟨rfl, consistent.index_unique (serving_child_of_detached produced)
      (serving_child_of_detached produced')⟩

end Host

end TreeSelector

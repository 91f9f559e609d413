import Mathlib.Data.List.Forall2
import TreeSelector.Proofs.Tree.Intervals

/-!
# What a layout keeps

Laying a captured node out as a tree loses nothing of it.  The nodes are numbered in the order
in which they are nested, and the nested node can be built again from the entries, with nothing
changed but view ids that were missing and could be derived.  A subtree is an interval of
numbers, so detaching subtrees makes stale what lies in them and nothing else.
-/

namespace TreeSelector

namespace NodeData

/-- The same data, except that a missing view id may have been filled in. -/
structure IsCompletedBy (data completed : NodeData) : Prop where
  beside : data = { completed with vid := data.vid }
  kept : data.vid ≠ none → completed.vid = data.vid

theorem within_isCompletion (data : NodeData) (appId : Option String) :
    data.IsCompletedBy (data.within appId) where
  beside := rfl
  kept := by
    intro present
    obtain ⟨vid, same⟩ := Option.ne_none_iff_exists'.mp present
    rw [within, same, Option.some_or]

/-- The derived view id is what follows the application and `:id/` in the id. -/
theorem derivedVid_eq_some_iff {id appId : Option String} {view : String} :
    derivedVid id appId = some view ↔
      ∃ app, appId = some app ∧ id = some (app ++ ":id/" ++ view) := by
  cases appId with
  | none => simp [derivedVid]
  | some app =>
      cases id with
      | none => simp [derivedVid]
      | some id =>
          have written : ∀ chars : List Char, id.toList = app.toList ++ (":id/".toList ++ chars) ↔
              id = app ++ ":id/" ++ String.ofList chars := by
            intro chars
            simp [← String.toList_inj]
          simp only [derivedVid, Option.bind_eq_bind, Option.bind_some, Option.bind_eq_some_iff,
            Option.map_eq_map, Option.map_eq_some_iff, Text.dropLeading?_eq_some_iff,
            Option.some.injEq, exists_eq_left']
          constructor
          · rintro ⟨rest, leading, chars, rfl, rfl⟩
            exact (written chars).mp leading
          · intro same
            refine ⟨_, ?_, view.toList, rfl, String.ofList_toList⟩
            exact (written view.toList).mpr (by rw [String.ofList_toList, same])

end NodeData

namespace CapturedNode

mutual

/-- The data of a node and of all that is nested in it, in pre-order. -/
def preorder : CapturedNode → List NodeData
  | node data children => data :: preorderAll children

def preorderAll : List CapturedNode → List NodeData
  | [] => []
  | child :: children => child.preorder ++ preorderAll children

end

/-- The same nested nodes, except that missing view ids may have been filled in. -/
inductive IsCompletedBy : CapturedNode → CapturedNode → Prop where
  | node {data completed : NodeData} {children completions : List CapturedNode} :
      data.IsCompletedBy completed → List.Forall₂ IsCompletedBy children completions →
      IsCompletedBy (node data children) (node completed completions)

end CapturedNode

/-- The entry of a node with the given data: a missing view id is derived if it can be. -/
structure Entry.Holds (entry : Entry) (data : NodeData) : Prop where
  completed : data.IsCompletedBy entry.data
  derived : data.vid = none → ∀ view, entry.data.vid = some view ↔
    ∃ app, entry.appId = some app ∧ data.id = some (app ++ ":id/" ++ view)

namespace Tree

/-- The nested node that the entries tell of a node whose parent is given.  No child is looked
for more than `height` generations below. -/
def rebuild (tree : Tree) : (height : Nat) → (parent : Option NodeId) → NodeId →
    Option CapturedNode
  | 0, _, _ => none
  | height + 1, parent, node => do
      let entry ← tree.entry? node
      if entry.parent = parent then
        let children ← entry.children.toList.mapM (tree.rebuild height (some node))
        return .node entry.data children
      else none

/-- The entries of a node and of its ancestors, the nearest one first. -/
def ancestry (tree : Tree) : (height : Nat) → NodeId → List Entry
  | 0, _ => []
  | height + 1, node =>
      match tree.entry? node with
      | some entry => entry :: (entry.parent.map (tree.ancestry height)).getD []
      | none => []

/-- A node is in the subtree of a node that lists it, or a node of whose subtree lists it. -/
inductive InSubtree (tree : Tree) (top : NodeId) : NodeId → Prop where
  | top {entry : Entry} : tree.entry? top = some entry → InSubtree tree top top
  | listed {node child : NodeId} {entry : Entry} : InSubtree tree top node →
      tree.entry? node = some entry → child ∈ entry.children.toList → InSubtree tree top child

/-- A tree that keeps all there is to know of a captured node. -/
structure Keeps (tree : Tree) (root : CapturedNode) : Prop where
  /-- Nodes are numbered in pre-order. -/
  numbered : List.Forall₂ Entry.Holds tree.entries.toList root.preorder
  rebuilt : ∃ rebuilt, tree.rebuild tree.size none 0 = some rebuilt ∧ root.IsCompletedBy rebuilt
  lister : ∀ {node child : NodeId} {entry : Entry}, tree.entry? node = some entry →
    child ∈ entry.children.toList → ∃ held, tree.entry? child = some held ∧ held.parent = some node
  ascending : ∀ {node : NodeId} {entry : Entry}, tree.entry? node = some entry →
    entry.children.toList.Pairwise (· < ·)
  interval : ∀ {top node : NodeId} {entry : Entry}, tree.entry? top = some entry →
    (tree.InSubtree top node ↔ top ≤ node ∧ node < entry.subtreeEnd)
  nearest : ∀ {node : NodeId} {entry : Entry}, tree.entry? node = some entry →
    entry.appId = (tree.ancestry tree.size node).findSome? (·.data.appId)

section Numbering

mutual

theorem entriesOf_holds (first : Nat) (parent : Option Nat) (inherited : Option String) :
    (captured : CapturedNode) →
      List.Forall₂ Entry.Holds (entriesOf first parent inherited captured) captured.preorder
  | .node data children => by
      rw [entriesOf, CapturedNode.preorder]
      refine .cons ⟨data.within_isCompletion _, fun missing view => ?_⟩
        (entriesOfAll_holds (first + 1) first _ children)
      rw [← NodeData.derivedVid_eq_some_iff, NodeData.within, missing, Option.none_or]

theorem entriesOfAll_holds (first parent : Nat) (inherited : Option String) :
    (children : List CapturedNode) →
      List.Forall₂ Entry.Holds (entriesOfAll first parent inherited children).2
        (CapturedNode.preorderAll children)
  | [] => by
      rw [entriesOfAll]
      exact .nil
  | child :: children => by
      rw [entriesOfAll, CapturedNode.preorderAll]
      exact List.rel_append (entriesOf_holds first (some parent) inherited child)
        (entriesOfAll_holds _ parent inherited children)

end

end Numbering

section Rebuilding

variable {tree : Tree}

mutual

/-- A node is built again from a tree that has its entries. -/
theorem rebuild_entriesOf (first : Nat) (parent : Option Nat) (inherited : Option String) :
    (captured : CapturedNode) → ∀ height,
      (∀ node entry, HasEntry first (entriesOf first parent inherited captured) node entry →
        tree.entry? node = some entry) →
      (entriesOf first parent inherited captured).length ≤ height →
        ∃ rebuilt, tree.rebuild height parent first = some rebuilt ∧
          captured.IsCompletedBy rebuilt
  | .node data children => by
      intro height present enough
      rw [entriesOf] at present enough
      obtain ⟨height, rfl⟩ : ∃ below, height = below + 1 :=
        Nat.exists_eq_add_one_of_ne_zero (Nat.ne_zero_of_lt enough)
      have own := present first _ (hasEntry_cons_iff.mpr (.inl ⟨rfl, rfl⟩))
      obtain ⟨below, built, completed⟩ := rebuild_entriesOfAll (first + 1) first
        (data.appId.or inherited) children height
        (fun node entry found => present node entry (hasEntry_cons_iff.mpr (.inr found)))
        (Nat.le_of_succ_le_succ enough)
      refine ⟨.node (data.within (data.appId.or inherited)) below, ?_,
        .node (data.within_isCompletion _) completed⟩
      simp [rebuild, own, built]

theorem rebuild_entriesOfAll (first parent : Nat) (inherited : Option String) :
    (children : List CapturedNode) → ∀ height,
      (∀ node entry, HasEntry first (entriesOfAll first parent inherited children).2 node entry →
        tree.entry? node = some entry) →
      (entriesOfAll first parent inherited children).2.length ≤ height →
        ∃ rebuilt, (entriesOfAll first parent inherited children).1.mapM
            (tree.rebuild height (some parent)) = some rebuilt ∧
          List.Forall₂ CapturedNode.IsCompletedBy children rebuilt
  | [] => by
      intro height present enough
      rw [entriesOfAll]
      exact ⟨[], rfl, .nil⟩
  | child :: children => by
      intro height present enough
      rw [entriesOfAll] at present enough ⊢
      rw [List.length_append] at enough
      obtain ⟨eldest, built, completed⟩ := rebuild_entriesOf first (some parent) inherited child
        height (fun node entry found => present node entry (hasEntry_append_iff.mpr (.inl found)))
        (by omega)
      obtain ⟨others, builtOthers, completedOthers⟩ := rebuild_entriesOfAll _ parent inherited
        children height
        (fun node entry found => present node entry (hasEntry_append_iff.mpr (.inr found)))
        (by omega)
      refine ⟨eldest :: others, ?_, .cons completed completedOthers⟩
      rw [List.mapM_cons, built, builtOthers]
      rfl

end

end Rebuilding

section Applications

variable {first : Nat} {entries others : List Entry}

/-- Entries, numbered from `first` on, that without an application of their own belong to that
of their parent, or to `inherited` if the parent is not among them. -/
def Inherits (first : Nat) (parent : Option Nat) (inherited : Option String)
    (entries : List Entry) : Prop :=
  ∀ node entry, HasEntry first entries node entry →
    entry.parent = parent ∧ entry.appId = entry.data.appId.or inherited ∨
      ∃ holder held, entry.parent = some holder ∧ HasEntry first entries holder held ∧
        entry.appId = entry.data.appId.or held.appId

mutual

theorem entriesOf_inherits (first : Nat) (parent : Option Nat) (inherited : Option String) :
    (captured : CapturedNode) →
      Inherits first parent inherited (entriesOf first parent inherited captured)
  | .node data children => by
      intro node entry found
      rw [entriesOf] at found ⊢
      rcases hasEntry_cons_iff.mp found with ⟨rfl, rfl⟩ | below
      · exact .inl ⟨rfl, rfl⟩
      · rcases entriesOfAll_inherits (first + 1) first _ children node entry below with
          ⟨named, same⟩ | ⟨holder, held, named, present, same⟩
        · exact .inr ⟨first, _, named, hasEntry_cons_iff.mpr (.inl ⟨rfl, rfl⟩), same⟩
        · exact .inr ⟨holder, held, named, hasEntry_cons_iff.mpr (.inr present), same⟩

theorem entriesOfAll_inherits (first parent : Nat) (inherited : Option String) :
    (children : List CapturedNode) →
      Inherits first (some parent) inherited (entriesOfAll first parent inherited children).2
  | [] => by
      intro node entry found
      simp [entriesOfAll, HasEntry] at found
  | child :: children => by
      intro node entry found
      rw [entriesOfAll] at found ⊢
      rcases hasEntry_append_iff.mp found with here | later
      · refine (entriesOf_inherits first (some parent) inherited child node entry here).imp_right ?_
        rintro ⟨holder, held, named, present, same⟩
        exact ⟨holder, held, named, hasEntry_append_iff.mpr (.inl present), same⟩
      · refine (entriesOfAll_inherits _ parent inherited children node entry later).imp_right ?_
        rintro ⟨holder, held, named, present, same⟩
        exact ⟨holder, held, named, hasEntry_append_iff.mpr (.inr present), same⟩

end

/-- The application of a node is that of the nearest node, from it upwards, that has one. -/
theorem appId_eq_findSome? {root : CapturedNode} {height node : Nat} {entry : Entry}
    (found : entry? (ofCaptured root) node = some entry) (enough : node < height) :
    entry.appId = ((ofCaptured root).ancestry height node).findSome? (·.data.appId) := by
  induction height generalizing node entry with
  | zero => exact absurd enough (Nat.not_lt_zero node)
  | succ height hypothesis =>
      have here := hasEntry_ofCaptured_iff.mpr found
      rw [ancestry, found]
      dsimp only
      rw [List.findSome?_cons]
      rcases entriesOf_inherits 0 none none root node entry here with
        ⟨orphan, same⟩ | ⟨holder, held, named, present, same⟩
      · rw [same, orphan]
        cases entry.data.appId <;> rfl
      · have before := ((ofCaptured_isNested root).parents node entry holder here named).1
        have above := hypothesis (hasEntry_ofCaptured_iff.mp present)
          (Nat.lt_of_lt_of_le before (Nat.le_of_lt_succ enough))
        rw [same, named, above]
        cases entry.data.appId <;> rfl

end Applications

section Subtrees

variable {root : CapturedNode} {top node : Nat} {head entry : Entry}

/-- What a node lists names it as its parent, and nothing else does. -/
theorem mem_children_iff (found : entry? (ofCaptured root) node = some entry) {child : Nat} :
    child ∈ entry.children.toList ↔
      ∃ held, entry? (ofCaptured root) child = some held ∧ held.parent = some node := by
  have family := entriesOf_isFamily 0 none none root
  have here := hasEntry_ofCaptured_iff.mpr found
  constructor
  · intro listed
    obtain ⟨held, present, named⟩ := (family.lists node entry here).2 child listed
    exact ⟨held, hasEntry_ofCaptured_iff.mp present, named⟩
  · rintro ⟨held, present, named⟩
    rcases family.listed child held (hasEntry_ofCaptured_iff.mpr present) with
      ⟨_, orphan⟩ | ⟨holder, entry', named', found', listed⟩
    · rw [named] at orphan
      cases orphan
    · obtain rfl : node = holder := Option.some.inj (named.symm.trans named')
      obtain rfl : entry' = entry :=
        Option.some.inj ((hasEntry_ofCaptured_iff.mp found').symm.trans found)
      exact listed

theorem lt_size_of_entry (found : entry? (ofCaptured root) node = some entry) :
    node < (ofCaptured root).size :=
  Nat.lt_of_lt_of_eq (hasEntry_ofCaptured_iff.mpr found).lt (Nat.zero_add _)

theorem exists_parent_of_pos (found : entry? (ofCaptured root) node = some entry)
    (positive : 0 < node) :
    ∃ holder held, entry.parent = some holder ∧ entry? (ofCaptured root) holder = some held := by
  rcases (entriesOf_isFamily 0 none none root).listed node entry
      (hasEntry_ofCaptured_iff.mpr found) with ⟨top, _⟩ | ⟨holder, held, named, present, _⟩
  · exact absurd (List.mem_singleton.mp top) (Nat.ne_of_gt positive)
  · exact ⟨holder, held, named, hasEntry_ofCaptured_iff.mp present⟩

theorem InSubtree.exists_entry {tree : Tree} (inside : tree.InSubtree top node) :
    ∃ head, tree.entry? top = some head := by
  induction inside with
  | top found => exact ⟨_, found⟩
  | listed _ _ _ hypothesis => exact hypothesis

/-- A subtree is an interval of numbers. -/
theorem inSubtree_iff (foundTop : entry? (ofCaptured root) top = some head) :
    (ofCaptured root).InSubtree top node ↔ top ≤ node ∧ node < head.subtreeEnd := by
  constructor
  · intro inside
    induction inside with
    | top _ => exact ⟨Nat.le_refl top, lt_subtreeEnd foundTop⟩
    | listed _ found listed hypothesis =>
        obtain ⟨held, present, named⟩ := (mem_children_iff found).mp listed
        have below := (mem_subtree_iff_parent foundTop present named).mpr hypothesis
        exact ⟨Nat.le_of_lt below.1, below.2⟩
  · rintro ⟨after, before⟩
    induction node using Nat.strongRecOn with
    | ind node hypothesis =>
        rcases Nat.eq_or_lt_of_le after with rfl | after
        · exact .top foundTop
        · have inside : node < 0 + (entriesOf 0 none none root).length :=
            Nat.lt_of_lt_of_le before ((ofCaptured_isNested root).ends top head
              (hasEntry_ofCaptured_iff.mpr foundTop))
          obtain ⟨entry, found⟩ : ∃ entry, entry? (ofCaptured root) node = some entry :=
            ⟨_, hasEntry_ofCaptured_iff.mp
              ⟨Nat.zero_le node, List.getElem?_eq_getElem (by omega)⟩⟩
          -- the parent is in the subtree too, and has a smaller number
          obtain ⟨holder, held, named, present⟩ :=
            exists_parent_of_pos found (Nat.zero_lt_of_lt after)
          have above := (mem_subtree_iff_parent foundTop found named).mp ⟨after, before⟩
          have smaller := ((ofCaptured_isNested root).parents node entry holder
            (hasEntry_ofCaptured_iff.mpr found) named).1
          exact .listed (hypothesis holder smaller above.1 above.2) present
            ((mem_children_iff present).mpr ⟨entry, found, named⟩)

end Subtrees

theorem ofCaptured_keeps (root : CapturedNode) : (ofCaptured root).Keeps root where
  numbered := entriesOf_holds 0 none none root
  rebuilt := rebuild_entriesOf 0 none none root _
    (fun _ _ found => hasEntry_ofCaptured_iff.mp found) (Nat.le_refl _)
  lister := fun found listed => (mem_children_iff found).mp listed
  ascending := fun found => ((entriesOf_isFamily 0 none none root).lists _ _
    (hasEntry_ofCaptured_iff.mpr found)).1
  interval := inSubtree_iff
  nearest := fun found => appId_eq_findSome? found (lt_size_of_entry found)

end Tree

namespace Host

/-- Whatever is asked about a node fails as stale exactly if a condition holds. -/
structure IsStaleIff (host : Host) (node : NodeId) (condition : Prop) : Prop where
  parent : host.parent node = .error .stale ↔ condition
  childCount : host.childCount node = .error .stale ↔ condition
  child : ∀ index, host.child node index = .error .stale ↔ condition
  attributeValue : ∀ attr, host.attributeValue node attr = .error .stale ↔ condition
  appId : host.appId node = .error .stale ↔ condition
  lookUp : ∀ keys, host.lookUp node keys = .error .stale ↔ condition
  root : node = 0 → (host.root = .error .stale ↔ condition)

theorem access_eq_stale_iff {host : Host} {node : NodeId} :
    host.access node = .error .stale ↔ host.isDetached node = true := by
  unfold access
  cases host.isDetached node <;> cases host.tree.entry? node <;> simp

/-- Every question about a node needs access to it, and fails for no other reason. -/
theorem isStaleIff_isDetached (host : Host) (node : NodeId) :
    host.IsStaleIff node (host.isDetached node = true) := by
  have needed : ∀ {α : Type} (answer : Entry → α),
      (answer <$> host.access node = .error .stale ↔ host.isDetached node = true) := by
    intro α answer
    rw [← access_eq_stale_iff]
    cases host.access node with
    | ok entry => exact ⟨nofun, nofun⟩
    | error error =>
        exact ⟨fun failed => congrArg Except.error (Except.error.inj failed),
          fun failed => congrArg Except.error (Except.error.inj failed)⟩
  exact
    { parent := needed _
      childCount := needed _
      child := fun index => needed _
      attributeValue := fun attr => needed _
      appId := needed _
      lookUp := fun keys => needed _
      root := by
        rintro rfl
        exact needed _ }

theorem isDetached_detach {host : Host} {top node : NodeId} :
    (host.detach top).isDetached node = true ↔
      (∃ entry, host.tree.entry? top = some entry ∧ top ≤ node ∧ node < entry.subtreeEnd) ∨
        host.isDetached node = true := by
  unfold detach
  cases found : host.tree.entry? top <;> simp [isDetached]

theorem isDetached_foldl_detach {host : Host} {gone : List NodeId} {node : NodeId} :
    (gone.foldl detach host).isDetached node = true ↔
      (∃ top ∈ gone, ∃ entry, host.tree.entry? top = some entry ∧ top ≤ node ∧
        node < entry.subtreeEnd) ∨ host.isDetached node = true := by
  induction gone generalizing host with
  | nil => simp
  | cons top gone hypothesis =>
      have same : (host.detach top).tree = host.tree := by
        obtain ⟨detached, eq⟩ := host.detach_eq top
        rw [eq]
      rw [List.foldl_cons, hypothesis, same, isDetached_detach, List.exists_mem_cons_iff, ← or_assoc,
        or_comm (b := ∃ entry, host.tree.entry? top = some entry ∧ _)]

/-- What was detached from a captured tree are the subtrees of the nodes it was detached at. -/
theorem isDetached_serving {root : CapturedNode} {gone : List NodeId} {indexed : Bool}
    {node : NodeId} :
    (serving root gone indexed).isDetached node = true ↔
      ∃ top ∈ gone, (Tree.ofCaptured root).InSubtree top node := by
  have nothing : ({ tree := Tree.ofCaptured root, indexed } : Host).isDetached node = false := rfl
  rw [serving, isDetached_foldl_detach, nothing, or_iff_left Bool.false_ne_true]
  refine exists_congr fun top => and_congr_right fun _ => ?_
  constructor
  · rintro ⟨entry, found, inside⟩
    exact (Tree.inSubtree_iff found).mpr inside
  · intro inside
    obtain ⟨entry, found⟩ := inside.exists_entry
    exact ⟨entry, found, (Tree.inSubtree_iff found).mp inside⟩

/-- A captured node is laid out as a tree that keeps all there is to know of it; and once
subtrees were detached, exactly the nodes in them are stale. -/
theorem serves_what_was_captured (root : CapturedNode) (gone : List NodeId) (indexed : Bool) :
    (Tree.ofCaptured root).Keeps root ∧
      ∀ node, (serving root gone indexed).IsStaleIff node
        (∃ top ∈ gone, (Tree.ofCaptured root).InSubtree top node) := by
  refine ⟨Tree.ofCaptured_keeps root, fun node => ?_⟩
  rw [← @isDetached_serving root gone indexed node]
  exact isStaleIff_isDetached _ node

end Host

end TreeSelector

import TreeSelector.Tree.Captured

/-!
# Trees

A captured node is laid out as a tree whose nodes are numbered in pre-order, so
that the nodes of a subtree are an interval of numbers.  A node without an
application of its own belongs to that of its parent.
-/

namespace TreeSelector

/-- The number of a node in the pre-order of its tree. -/
abbrev NodeId : Type := Nat

structure Entry where
  data : NodeData
  /-- The application of the nearest node, from here up, that has one. -/
  appId : Option String
  parent : Option NodeId
  children : Array NodeId
  /-- The number behind the last node of this subtree. -/
  subtreeEnd : NodeId
  deriving DecidableEq

/-- The nodes of a tree, in pre-order. -/
structure Tree where
  entries : Array Entry

namespace Tree

mutual

/-- The entries of a subtree whose nodes are numbered from `first` on. -/
def entriesOf (first : NodeId) (parent : Option NodeId) (inherited : Option String) :
    CapturedNode → List Entry
  | .node data children =>
      let appId := data.appId.or inherited
      let (numbers, below) := entriesOfAll (first + 1) first appId children
      { data := data.within appId
        appId := appId
        parent := parent
        children := numbers.toArray
        subtreeEnd := first + 1 + below.length } :: below

/-- The numbers of some siblings, and the entries of their subtrees. -/
def entriesOfAll (first : NodeId) (parent : NodeId) (inherited : Option String) :
    List CapturedNode → List NodeId × List Entry
  | [] => ([], [])
  | child :: children =>
      let entries := entriesOf first (some parent) inherited child
      let (numbers, others) :=
        entriesOfAll (first + entries.length) parent inherited children
      (first :: numbers, entries ++ others)

end

def ofCaptured (root : CapturedNode) : Tree :=
  ⟨(entriesOf 0 none none root).toArray⟩

def size (tree : Tree) : Nat := tree.entries.size

def entry? (tree : Tree) (node : NodeId) : Option Entry := tree.entries[node]?

def nodesWithId (tree : Tree) (id : String) : List NodeId :=
  (List.range tree.size).filter fun node =>
    (tree.entry? node).any (·.data.id == some id)

end Tree

end TreeSelector

import TreeSelector.Reading.Direct

/-!
# The remembering view

The view that keeps what it learns about the structure of a tree and asks for it
only once.  Attributes, child counts and the index are asked for every time.
-/

namespace TreeSelector

namespace Reading

def consult (look : NodeCache NodeId → Option α × NodeCache NodeId) : Reading (Option α) :=
  modifyGet fun session =>
    let (found, cache) := look session.cache
    (found, { session with cache })

def remember (store : NodeCache NodeId → NodeCache NodeId) : Reading Unit :=
  modify fun session => { session with cache := store session.cache }

def forget : Reading Unit := remember NodeCache.clear

end Reading

namespace Host

open Reading

def recallRoot (host : Host) : Reading (Option NodeId) := do
  match (← get).cache.root with
  | some root => return some root
  | none =>
      match ← host.readRoot with
      | none => return none
      | some root =>
          remember (·.setRoot root)
          return some root

/-- A node without a parent is the root of the tree as it is now. -/
def recallParent (host : Host) (node : NodeId) : Reading (Option NodeId) := do
  match ← consult (·.parent? node) with
  | some parent => return some parent
  | none =>
      if (← get).cache.isRoot node then return none
      match ← host.readParent node with
      | none => return none
      | some none =>
          remember (·.setRoot node)
          return none
      | some (some parent) =>
          remember (·.insertParent node parent)
          return some parent

def recallChild (host : Host) (node : NodeId) (index : Nat) : Reading (Option NodeId) := do
  match ← consult (·.child? node index) with
  | some child => return some child
  | none =>
      match ← host.readChild node index with
      | none => return none
      | some child =>
          remember (·.insertChild node index child)
          return some child

/-- Looking through the siblings of a node makes all their positions known. -/
def recallIndex (host : Host) (node : NodeId) : Reading (Option Nat) := do
  match ← consult (·.index? node) with
  | some index => return some index
  | none => searchIndex host.recallParent host.recallChild host.readChildCount node

/-- How many ancestors a node has; no more than `room` are counted. -/
def recallDepth (host : Host) : (room : Nat) → NodeId → Reading Nat
  | 0, _ => return 0
  | room + 1, node => do
      match ← host.recallParent node with
      | none => return 0
      | some parent => return (← recallDepth host room parent) + 1

/-- The view that remembers the structure of the tree. -/
def rememberingView (host : Host) : View :=
  { root := host.recallRoot
    parent := host.recallParent
    child := host.recallChild
    childCount := host.readChildCount
    index := host.recallIndex
    depth := host.recallDepth maxDescendants
    attributeValue := host.readAttribute
    lookUp := host.readIndex
    heightBound := host.tree.size + 1 }

def view (host : Host) (remembering : Bool) : View :=
  if remembering then host.rememberingView else host.directView

end Host

end TreeSelector

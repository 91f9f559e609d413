import TreeSelector.Cache.Lru

/-!
# Memory of a tree's structure

What is known of the structure of a tree: which node is its child at an index,
at which index a node is, which node is its parent, and which node is the root.
The entries belong to one root; a different one makes them void.
-/

namespace TreeSelector

structure NodeCache (Node : Type) where
  children : Lru (Node × Nat) Node
  indices : Lru Node Nat
  parents : Lru Node Node
  root : Option Node

namespace NodeCache

variable {Node : Type} [DecidableEq Node]

/-- A cache that knows nothing; each of its three maps has the given capacity. -/
def empty (capacity : Nat) : NodeCache Node :=
  ⟨.empty capacity, .empty capacity, .empty capacity, none⟩

def size (cache : NodeCache Node) : Nat :=
  cache.children.size + cache.indices.size + cache.parents.size

def isRoot (cache : NodeCache Node) (node : Node) : Bool := cache.root = some node

/-- Forgets everything, the root included. -/
def clear (cache : NodeCache Node) : NodeCache Node :=
  ⟨cache.children.clear, cache.indices.clear, cache.parents.clear, none⟩

/-- Whether the cache holds on to any node. -/
def holdsNodes (cache : NodeCache Node) : Bool := cache.root.isSome || 0 < cache.size

/-- Installs a root; if it differs from the one before, everything is forgotten. -/
def setRoot (cache : NodeCache Node) (root : Node) : NodeCache Node :=
  let kept := if cache.root.any (· ≠ root) then cache.clear else cache
  { kept with root := some root }

def parent? (cache : NodeCache Node) (node : Node) : Option Node × NodeCache Node :=
  let (found, parents) := cache.parents.get? node
  (found, { cache with parents })

def child? (cache : NodeCache Node) (node : Node) (index : Nat) :
    Option Node × NodeCache Node :=
  let (found, children) := cache.children.get? (node, index)
  (found, { cache with children })

def index? (cache : NodeCache Node) (node : Node) : Option Nat × NodeCache Node :=
  let (found, indices) := cache.indices.get? node
  (found, { cache with indices })

/-- Stores the child of a node at an index, and so the parent and the index of the
child. -/
def insertChild (cache : NodeCache Node) (parent : Node) (index : Nat) (child : Node) :
    NodeCache Node :=
  { cache with
    parents := cache.parents.insert child parent
    indices := cache.indices.insert child index
    children := cache.children.insert (parent, index) child }

def insertParent (cache : NodeCache Node) (node parent : Node) : NodeCache Node :=
  { cache with parents := cache.parents.insert node parent }

def insertIndex (cache : NodeCache Node) (node : Node) (index : Nat) : NodeCache Node :=
  { cache with indices := cache.indices.insert node index }

end NodeCache

end TreeSelector

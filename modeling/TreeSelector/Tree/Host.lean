import TreeSelector.Text.Radix
import TreeSelector.Tree.Layout

/-!
# Hosts

A host serves a tree from which subtrees may have been detached.  Any access to a
detached node fails, and so does an access to a node that never was there.  The
index of a host answers what a bounded walk would reach.
-/

namespace TreeSelector

inductive HostError where
  /-- The node no longer belongs to the tree. -/
  | stale
  | noSuchNode (node : NodeId)
  | refused
  deriving DecidableEq, Repr

namespace HostError

def message : HostError → String
  | stale => "node is no longer attached to the tree"
  | noSuchNode node => "host tree access failed: no node " ++ Text.decimal node
  | refused => "host tree access failed"

end HostError

/-- How many children of a node any walk visits at most. -/
def maxChildren : Nat := 512

/-- How many nodes a walk over descendants visits at most. -/
def maxDescendants : Nat := 4096

/-- Node numbers from `first` up to, but not including, `bound`. -/
structure Interval where
  first : NodeId
  bound : NodeId
  deriving DecidableEq, Repr

/-- A tree with what keeps some of it from being read. -/
structure Host where
  tree : Tree
  /-- The subtrees that were detached. -/
  detached : List Interval := []
  /-- Whether nodes can be looked up by key. -/
  indexed : Bool := true
  /-- Whether the host denies having a root. -/
  rootless : Bool := false
  /-- Child lookups that fail. -/
  holes : List (NodeId × Nat) := []
  /-- Nodes whose attributes bring a whole reading down. -/
  poisoned : List NodeId := []

namespace Host

def isDetached (host : Host) (node : NodeId) : Bool :=
  host.detached.any fun interval => interval.first ≤ node && node < interval.bound

/-- Detaches the subtree of a node, if there is such a node. -/
def detach (host : Host) (node : NodeId) : Host :=
  match host.tree.entry? node with
  | some entry => { host with detached := ⟨node, entry.subtreeEnd⟩ :: host.detached }
  | none => host

/-- The entry of a node that can be accessed. -/
def access (host : Host) (node : NodeId) : Except HostError Entry :=
  if host.isDetached node then .error .stale
  else
    match host.tree.entry? node with
    | some entry => .ok entry
    | none => .error (.noSuchNode node)

def root (host : Host) : Except HostError NodeId := do
  let _ ← host.access 0
  return 0

def parent (host : Host) (node : NodeId) : Except HostError (Option NodeId) := do
  return (← host.access node).parent

def childCount (host : Host) (node : NodeId) : Except HostError Nat := do
  return (← host.access node).children.size

def child (host : Host) (node : NodeId) (index : Nat) :
    Except HostError (Option NodeId) := do
  return (← host.access node).children[index]?

def attributeValue (host : Host) (node : NodeId) (attr : Attribute) :
    Except HostError AttributeValue := do
  return (← host.access node).data.attributeValue attr

def appId (host : Host) (node : NodeId) : Except HostError (Option String) := do
  return (← host.access node).appId

/-- Whether a node seen before can still be accessed. -/
def isLive (host : Host) (node : NodeId) : Bool := (host.access node).toBool

/-- The children of a node that a walk goes on to; there are none below a detached
node. -/
def visibleChildren (host : Host) (node : NodeId) : List NodeId :=
  match host.access node with
  | .ok entry => entry.children.toList.take maxChildren
  | .error _ => []

/-- Visits nodes and what lies below them in pre-order, up to `room` of them. -/
def visit (host : Host) : (room : Nat) → (pending : List NodeId) → List NodeId
  | 0, _ => []
  | _, [] => []
  | room + 1, node :: pending =>
      node :: visit host room (host.visibleChildren node ++ pending)

/-- A node and what a bounded walk reaches below it, in pre-order. -/
def reachable (host : Host) (node : NodeId) : List NodeId :=
  node :: host.visit maxDescendants (host.visibleChildren node)

def answersTo (host : Host) (node : NodeId) (keys : List IndexKey) : Bool :=
  match host.access node with
  | .ok entry => keys.any fun key => key.accepts (entry.data.attributeValue key.subject)
  | .error _ => false

/-- What the index holds for some keys: the reachable nodes that answer to one. -/
def lookUp (host : Host) (node : NodeId) (keys : List IndexKey) :
    Except HostError (List NodeId) := do
  let _ ← host.access node
  return (host.reachable node).filter (host.answersTo · keys)

end Host

end TreeSelector

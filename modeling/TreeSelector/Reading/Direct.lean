import TreeSelector.Reading.View

/-!
# The direct view

The view that asks the host every time, and the single questions that every view
puts to a host.
-/

namespace TreeSelector

namespace Host

def readRoot (host : Host) : Reading (Option NodeId) :=
  if host.rootless then return none else Reading.ask host.root

def readParent (host : Host) (node : NodeId) : Reading (Option (Option NodeId)) :=
  Reading.ask (host.parent node)

def readChild (host : Host) (node : NodeId) (index : Nat) : Reading (Option NodeId) :=
  if host.holes.contains (node, index) then return none
  else return (← Reading.ask (host.child node index)).join

def readChildCount (host : Host) (node : NodeId) : Reading Nat :=
  return (← Reading.ask (host.childCount node)).getD 0

def readAttribute (host : Host) (node : NodeId) (attr : Attribute) :
    Reading AttributeValue := do
  if host.poisoned.contains node then
    modify fun session => { session with broken := true }
    return .absent
  return (← Reading.ask (host.attributeValue node attr)).getD .absent

def readIndex (host : Host) (node : NodeId) (keys : List IndexKey) :
    Reading (Option (List NodeId)) :=
  if host.indexed then Reading.ask (host.lookUp node keys) else return none

def readLiveness (host : Host) (node : NodeId) : Reading Bool :=
  return (← Reading.ask (host.access node)).isSome

def readAppId (host : Host) (node : NodeId) : Reading (Option String) :=
  return (← Reading.ask (host.appId node)).join

/-- The position of a node among the children of its parent, which are looked at one
by one. -/
def searchIndex (parentOf : NodeId → Reading (Option NodeId))
    (childOf : NodeId → Nat → Reading (Option NodeId)) (countOf : NodeId → Reading Nat)
    (node : NodeId) : Reading (Option Nat) := do
  match ← parentOf node with
  | none => return some 0
  | some parent =>
      let count ← countOf parent
      Reading.findPosition (fun position => return (← childOf parent position) = some node)
        0 (min count maxChildren)

/-- How many ancestors a node has, counting itself as one; no more than `room` are
counted, though one more is looked for. -/
def climb (host : Host) : (room : Nat) → NodeId → Reading Nat
  | 0, _ => return 0
  | room + 1, node => do
      match (← host.readParent node).join with
      | none => return 1
      | some parent => return (← climb host room parent) + 1

/-- The view that asks the host every time. -/
def directView (host : Host) : View :=
  let parent := fun node => return (← host.readParent node).join
  { root := host.readRoot
    parent := parent
    child := host.readChild
    childCount := host.readChildCount
    index := searchIndex parent host.readChild host.readChildCount
    depth := fun node => do
      match ← parent node with
      | none => return 0
      | some parent => host.climb maxDescendants parent
    attributeValue := host.readAttribute
    lookUp := host.readIndex
    heightBound := host.tree.size + 1 }

end Host

end TreeSelector

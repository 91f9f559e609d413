import TreeSelector.Cache.NodeCache
import TreeSelector.Tree.Host

/-!
# Views

A view is how matching sees a tree.  It never fails: what a host cannot answer
is absent.  Reading through a view counts the questions put to the host and may
fill a cache.
-/

namespace TreeSelector

/-- What changes while a tree is read. -/
structure Session where
  calls : Nat
  /-- Whether an attribute of a poisoned node was read. -/
  broken : Bool
  cache : NodeCache NodeId

/-- A computation that reads a tree. -/
abbrev Reading : Type → Type := StateM Session

namespace Session

/-- The state before anything was read. -/
def fresh (capacity : Nat) : Session := ⟨0, false, .empty capacity⟩

end Session

/-- How many entries each map of a cache holds unless asked otherwise. -/
def defaultCapacity : Nat := 512

/-- Access to a tree. -/
structure View where
  root : Reading (Option NodeId)
  parent : NodeId → Reading (Option NodeId)
  child : NodeId → Nat → Reading (Option NodeId)
  childCount : NodeId → Reading Nat
  /-- The position of a node among its siblings; a node without a parent is at 0. -/
  index : NodeId → Reading (Option Nat)
  depth : NodeId → Reading Nat
  attributeValue : NodeId → Attribute → Reading AttributeValue
  /-- The nodes of a subtree that the host's index holds for some keys, if it has one. -/
  lookUp : NodeId → List IndexKey → Reading (Option (List NodeId))
  /-- No node has this many ancestors. -/
  heightBound : Nat

namespace Reading

/-- Asks the host a question; a failure counts as a question too. -/
def ask (answer : Except HostError α) : Reading (Option α) := do
  modify fun session => { session with calls := session.calls + 1 }
  return answer.toOption

/-- The least of `count` positions from `position` on at which `test` succeeds. -/
def findPosition (test : Nat → Reading Bool) (position : Nat) :
    (count : Nat) → Reading (Option Nat)
  | 0 => return none
  | count + 1 => do
      if ← test position then return some position
      findPosition test (position + 1) count

end Reading

end TreeSelector

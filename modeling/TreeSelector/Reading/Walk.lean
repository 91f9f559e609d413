import TreeSelector.Language.Operator
import TreeSelector.Language.Window
import TreeSelector.Reading.View

/-!
# Walks

A walk goes over the candidates that a connector leads to, one after the other
and only as far as it is pulled.  Candidates have offsets counted from zero, and
only those in the window of the walk are produced.  A candidate that the host
fails to produce is skipped but keeps its offset.

Walks to children and brothers begin at the first offset of the window; the other
walks have to pass over what lies before it.
-/

namespace TreeSelector

/-- A node whose children are being visited; `left` of them, from `next` on, are
still to come, once their number is known. -/
structure Frame where
  node : NodeId
  next : Nat
  left : Option Nat

/-- Where a walk stands. -/
inductive Route where
  | forward (parent : NodeId) (origin : Nat)
  | backward (parent : NodeId) (origin : Nat)
  | upward (current : NodeId)
  | children (parent : NodeId)
  | below (stack : List Frame)

/-- What a walk finds at an offset. -/
inductive Stop where
  | ended
  | skipped (route : Route)
  | reached (node : NodeId) (route : Route)

/-- A walk whose next candidate has the given offset; no more than `left` offsets
remain. -/
structure Walk where
  route : Route
  offset : Nat
  left : Nat
  /-- Candidates at smaller offsets are passed over. -/
  lower : Nat

namespace Frame

def unopened (node : NodeId) : Frame := ⟨node, 0, none⟩

def remaining (view : View) (frame : Frame) : Reading Nat :=
  match frame.left with
  | some left => return left
  | none => return min (← view.childCount frame.node) maxChildren

/-- The first child that the host produces, with the frame behind it. -/
def firstChild (view : View) (node : NodeId) (next : Nat) :
    (left : Nat) → Reading (Option (NodeId × Frame))
  | 0 => return none
  | left + 1 => do
      match ← view.child node next with
      | some child => return some (child, ⟨node, next + 1, some left⟩)
      | none => firstChild view node (next + 1) left

end Frame

namespace Route

/-- The next node below, in pre-order, and the stack behind it. -/
def descend (view : View) : List Frame → Reading (Option (NodeId × List Frame))
  | [] => return none
  | frame :: stack => do
      let left ← frame.remaining view
      match ← Frame.firstChild view frame.node frame.next left with
      | some (child, frame) => return some (child, .unopened child :: frame :: stack)
      | none => descend view stack

/-- A candidate at a known place, which the host may fail to produce. -/
def tried (route : Route) : Option NodeId → Stop
  | some node => .reached node route
  | none => .skipped route

/-- What the route finds at an offset. -/
def look (view : View) (offset : Nat) : Route → Reading Stop
  | forward parent origin =>
      return tried (forward parent origin) (← view.child parent (origin + 1 + offset))
  | backward parent origin =>
      return tried (backward parent origin) (← view.child parent (origin - (1 + offset)))
  | children parent => return tried (children parent) (← view.child parent offset)
  | upward current => do
      match ← view.parent current with
      | some parent => return .reached parent (upward parent)
      | none => return .ended
  | below stack => do
      match ← descend view stack with
      | some (node, stack) => return .reached node (below stack)
      | none => return .ended

end Route

namespace Walk

/-- How many offsets a window leaves, from `offset` on, of those below `bound`. -/
def room (window : Window) (offset bound : Nat) : Nat :=
  match window.max with
  | some max => min bound (max.toNat + 1) - offset
  | none => bound - offset

/-- A walk over candidates at known places, of which there are `count`. -/
def positional (window : Window) (route : Route) (count : Nat) : Walk :=
  ⟨route, window.min.toNat, room window window.min.toNat count, window.min.toNat⟩

/-- A walk that has to be followed from its beginning, over at most `bound` candidates. -/
def sequential (window : Window) (route : Route) (bound : Nat) : Walk :=
  ⟨route, 0, room window 0 bound, window.min.toNat⟩

def empty : Walk := ⟨.below [], 0, 0, 0⟩

/-- The walk from a node over one connector. -/
def start (view : View) (connector : Connector) (node : NodeId) (window : Window) :
    Reading Walk :=
  match connector with
  | .beforeBrother | .afterBrother => do
      let parent ← view.parent node
      let index ← view.index node
      match parent, index with
      | some parent, some origin =>
          let count := min (← view.childCount parent) maxChildren
          if connector = .afterBrother then
            return positional window (.forward parent origin) (count - (origin + 1))
          else return positional window (.backward parent origin) origin
      | _, _ => return empty
  | .ancestor => return sequential window (.upward node) view.heightBound
  | .child => do
      let count := min (← view.childCount node) maxChildren
      return positional window (.children node) count
  | .descendant => return sequential window (.below [.unopened node]) maxDescendants

/-- Follows a route until it produces a candidate in the window. -/
def pull (view : View) (lower : Nat) (route : Route) (offset : Nat) :
    (left : Nat) → Reading (Option (NodeId × Walk))
  | 0 => return none
  | left + 1 => do
      match ← route.look view offset with
      | .ended => return none
      | .skipped route => pull view lower route (offset + 1) left
      | .reached node route =>
          if offset < lower then pull view lower route (offset + 1) left
          else return some (node, ⟨route, offset + 1, left, lower⟩)

def next (view : View) (walk : Walk) : Reading (Option (NodeId × Walk)) :=
  pull view walk.lower walk.route walk.offset walk.left

def take (view : View) : (count : Nat) → Walk → Reading (List NodeId)
  | 0, _ => return []
  | count + 1, walk => do
      match ← walk.next view with
      | none => return []
      | some (node, walk) => return node :: (← take view count walk)

def toList (view : View) (walk : Walk) : Reading (List NodeId) :=
  take view walk.left walk

/-- The first result that a test finds among up to `count` candidates, which are
pulled only until then. -/
def searchUpTo (view : View) (test : NodeId → Reading (Option α)) :
    (count : Nat) → Walk → Reading (Option α)
  | 0, _ => return none
  | count + 1, walk => do
      match ← walk.next view with
      | none => return none
      | some (node, walk) =>
          match ← test node with
          | some found => return some found
          | none => searchUpTo view test count walk

/-- The first result that a test finds among the candidates. -/
def search (view : View) (test : NodeId → Reading (Option α)) (walk : Walk) :
    Reading (Option α) :=
  searchUpTo view test walk.left walk

/-- All results that a test finds among up to `count` candidates. -/
def collectUpTo (view : View) (test : NodeId → Reading (Option α)) :
    (count : Nat) → Walk → Reading (List α)
  | 0, _ => return []
  | count + 1, walk => do
      match ← walk.next view with
      | none => return []
      | some (node, walk) =>
          match ← test node with
          | some found => return found :: (← collectUpTo view test count walk)
          | none => collectUpTo view test count walk

/-- All results that a test finds among the candidates, in order. -/
def collect (view : View) (test : NodeId → Reading (Option α)) (walk : Walk) :
    Reading (List α) :=
  collectUpTo view test walk.left walk

end Walk

end TreeSelector

import TreeSelector.Language.Predicate
import TreeSelector.Language.Window

/-!
# Segments and chains

A selector is written as segments joined by connectors and tested the other way
round: its chain starts at the last written segment, and each connector leads to
the segment written before it.
-/

namespace TreeSelector

/-- A predicate in brackets.  `target` marks the segment whose node a match
returns; `window` bounds the connector walked from a node of this segment. -/
structure Segment where
  target : Bool
  predicate : Predicate
  window : Option Window
  span : Span
  deriving DecidableEq, Inhabited

namespace Segment

def unplaced (segment : Segment) : Segment :=
  { segment with predicate := segment.predicate.unplaced, span := .nowhere }

/-- The offsets open to the connector walked from this segment. -/
def reach (segment : Segment) : Window :=
  segment.window.getD .unbounded

end Segment

/-- A selector from its last written segment to its first. -/
inductive Chain where
  | last (segment : Segment)
  | link (segment : Segment) (connector : Connector) (rest : Chain)
  deriving DecidableEq, Inhabited

namespace Chain

def head : Chain → Segment
  | last segment => segment
  | link segment _ _ => segment

def isLinked : Chain → Bool
  | last _ => false
  | link _ _ _ => true

/-- The segments, head first. -/
def segments : Chain → List Segment
  | last segment => [segment]
  | link segment _ rest => segment :: rest.segments

/-- The connectors, head first, each with the offsets open to it and the part of
the chain it leads to. -/
def connections : Chain → List (Connector × Window × Chain)
  | last _ => []
  | link segment connector rest => (connector, segment.reach, rest) :: rest.connections

def length (chain : Chain) : Nat := chain.segments.length

def unplaced : Chain → Chain
  | last segment => last segment.unplaced
  | link segment connector rest => link segment.unplaced connector rest.unplaced

/-- Continues a chain with connectors and segments in written order. -/
def extend (chain : Chain) : List (Connector × Segment) → Chain
  | [] => chain
  | (connector, segment) :: rest => (link segment connector chain).extend rest

/-- The chain of segments and connectors in written order; there is one
connector between any two neighbours. -/
def ofWritten? (segments : List Segment) (connectors : List Connector) : Option Chain :=
  match segments with
  | [] => none
  | first :: others =>
      if others.length = connectors.length then
        some ((last first).extend (connectors.zip others))
      else none

end Chain

end TreeSelector

import TreeSelector.Text.Radix
import TreeSelector.Tree.Layout

/-!
# Contexts

The nodes matched so far along a chain, the latest one first.
-/

namespace TreeSelector

/-- A nonempty list of nodes. -/
structure Context where
  current : NodeId
  earlier : List NodeId
  deriving DecidableEq, Repr

namespace Context

def single (node : NodeId) : Context := ⟨node, []⟩

/-- The context after matching one more node. -/
def push (context : Context) (node : NodeId) : Context :=
  ⟨node, context.current :: context.earlier⟩

def toList (context : Context) : List NodeId := context.current :: context.earlier

def length (context : Context) : Nat := context.toList.length

/-- The context of the given nodes, if there are any. -/
def ofList? : List NodeId → Option Context
  | [] => none
  | current :: earlier => some ⟨current, earlier⟩

/-- The context `steps + 1` matches ago. -/
def previous? (context : Context) (steps : Nat) : Option Context :=
  ofList? (context.earlier.drop steps)

/-- The node matched `steps` matches ago. -/
def get? (context : Context) (steps : Nat) : Option NodeId := context.toList[steps]?

/-- The nodes in brackets, the latest first. -/
def render (context : Context) : String :=
  "[" ++ ", ".intercalate (context.toList.map Text.decimal) ++ "]"

end Context

end TreeSelector

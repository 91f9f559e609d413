import TreeSelector.Typing

/-!
# Names and operands that occur in a chain

Everything a chain evaluates is a part of an operand of one of its comparisons, and
everything it asks of a value it asks by one of the names that occur in these.
-/

namespace TreeSelector

namespace Operand

mutual

/-- An operand and the operands inside it, those in arguments included. -/
def parts : Operand → List Operand
  | null span => [null span]
  | boolean value span => [boolean value span]
  | integer value span => [integer value span]
  | text value pattern span => [text value pattern span]
  | reference name span => [reference name span]
  | member object property span => member object property span :: object.parts
  | call function functionSpan arguments span =>
      call function functionSpan arguments span :: partsOfAll arguments
  | invoke object method methodSpan arguments span =>
      invoke object method methodSpan arguments span :: (object.parts ++ partsOfAll arguments)

def partsOfAll : List Operand → List Operand
  | [] => []
  | operand :: operands => operand.parts ++ partsOfAll operands

end

/-- The name by which an operand that is no literal asks for something. -/
def name? : Operand → Option Name
  | null _ | boolean _ _ | integer _ _ | text _ _ _ => none
  | reference name _ | member _ name _ | call name _ _ _ | invoke _ name _ _ _ => some name

/-- The names that occur in an operand, those in arguments included. -/
def names (operand : Operand) : List Name := operand.parts.filterMap name?

def namesOfAll (operands : List Operand) : List Name := (partsOfAll operands).filterMap name?

theorem names_reference (name : Name) (span : Span) : (reference name span).names = [name] := by
  rw [names, parts]
  rfl

theorem names_member (object : Operand) (property : Name) (span : Span) :
    (member object property span).names = property :: object.names := by
  rw [names, parts]
  rfl

theorem names_call (function : Name) (functionSpan span : Span) (arguments : List Operand) :
    (call function functionSpan arguments span).names = function :: namesOfAll arguments := by
  rw [names, parts]
  rfl

theorem names_invoke (object : Operand) (method : Name) (methodSpan span : Span)
    (arguments : List Operand) :
    (invoke object method methodSpan arguments span).names =
      method :: (object.names ++ namesOfAll arguments) := by
  rw [names, parts, List.filterMap_cons, List.filterMap_append]
  rfl

theorem namesOfAll_cons (operand : Operand) (operands : List Operand) :
    namesOfAll (operand :: operands) = operand.names ++ namesOfAll operands := by
  rw [namesOfAll, partsOfAll, List.filterMap_append]
  rfl

end Operand

def Comparison.parts (comparison : Comparison) : List Operand :=
  comparison.left.parts ++ comparison.right.parts

def Comparison.names (comparison : Comparison) : List Name :=
  comparison.left.names ++ comparison.right.names

def Predicate.names (predicate : Predicate) : List Name :=
  predicate.comparisons.flatMap Comparison.names

namespace Predicate

theorem names_compare (comparison : Comparison) :
    (compare comparison).names = comparison.names :=
  List.flatMap_singleton _ _

theorem names_and (left right : Predicate) : (and left right).names = left.names ++ right.names :=
  List.flatMap_append

theorem names_or (left right : Predicate) : (or left right).names = left.names ++ right.names :=
  List.flatMap_append

end Predicate

namespace Chain

/-- All operands that occur in a chain. -/
def operands (chain : Chain) : List Operand := chain.comparisons.flatMap Comparison.parts

def names (chain : Chain) : List Name := chain.comparisons.flatMap Comparison.names

def connectors : Chain → List Connector
  | last _ => []
  | link _ connector rest => connector :: rest.connectors

theorem names_last (segment : Segment) : (last segment).names = segment.predicate.names := by
  simp [names, comparisons, segments, Predicate.names]

theorem names_link (segment : Segment) (connector : Connector) (rest : Chain) :
    (link segment connector rest).names = segment.predicate.names ++ rest.names := by
  simp [names, comparisons, segments, Predicate.names]

end Chain

end TreeSelector

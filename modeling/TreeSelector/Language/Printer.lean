import TreeSelector.Language.Chain
import TreeSelector.Text.Escape

/-!
# Canonical text

Every selector has one canonical text: names and literals without blanks,
double-quoted strings, `&&` and `||` between single spaces, connectors between
single spaces, and parentheses only around an operand of `&&` or `||` that would
otherwise be read as part of another operand.
-/

namespace TreeSelector

namespace Operand

mutual

def render : Operand → String
  | null _ => "null"
  | boolean value _ => if value then "true" else "false"
  | integer value _ => Text.signedDecimal value.toInt
  | text value _ _ => Text.Escape.quote value
  | reference name _ => name.spelling
  | member object property _ => object.render ++ "." ++ property.spelling
  | call function _ arguments _ => function.spelling ++ "(" ++ renderAll arguments ++ ")"
  | invoke object method _ arguments _ =>
      object.render ++ "." ++ method.spelling ++ "(" ++ renderAll arguments ++ ")"

/-- The canonical texts of arguments, between commas. -/
def renderAll : List Operand → String
  | [] => ""
  | [operand] => operand.render
  | operand :: operands => operand.render ++ "," ++ renderAll operands

end

end Operand

namespace Comparison

def render (comparison : Comparison) : String :=
  comparison.left.render ++ comparison.relation.spelling ++ comparison.right.render

end Comparison

namespace Predicate

def parenthesize (wrapped : Bool) (text : String) : String :=
  if wrapped then "(" ++ text ++ ")" else text

/-- The canonical text of a predicate.  Both operators associate to the left, so
a right operand of the same precedence keeps its parentheses. -/
def render : Predicate → String
  | compare comparison => comparison.render
  | and left right =>
      parenthesize (left.precedence < 2) left.render ++ " && " ++
        parenthesize (right.precedence ≤ 2) right.render
  | or left right =>
      parenthesize (left.precedence < 1) left.render ++ " || " ++
        parenthesize (right.precedence ≤ 1) right.render

end Predicate

namespace Segment

def render (segment : Segment) : String :=
  (if segment.target then "@" else "") ++ "[" ++ segment.predicate.render ++ "]" ++
    (segment.window.map Window.render).getD ""

end Segment

namespace Chain

/-- The canonical text of a chain, in written order. -/
def render : Chain → String
  | last segment => segment.render
  | link segment connector rest =>
      rest.render ++ " " ++ connector.spelling ++ " " ++ segment.render

end Chain

end TreeSelector

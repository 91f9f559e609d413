import TreeSelector.Language.Name
import TreeSelector.Language.Operator
import TreeSelector.Language.Pattern
import TreeSelector.Language.Span

/-!
# Operands, comparisons and predicates

The predicate of a segment combines comparisons by `and` and `or`.  An operand
is a literal, a name, or a member or call of one; every syntax node keeps the
span it was read from, and `unplaced` forgets all spans, so two pieces of syntax
are equal up to place when their `unplaced` forms are.
-/

namespace TreeSelector

/-- An operand of a comparison.  Only a name, or a member of an operand, can be
called. -/
inductive Operand where
  | null (span : Span)
  | boolean (value : Bool) (span : Span)
  | integer (value : Int32) (span : Span)
  /-- A string literal; its pattern is present on the right of `~=` and `!~=`. -/
  | text (value : String) (pattern : Option Pattern) (span : Span)
  | reference (name : Name) (span : Span)
  | member (object : Operand) (property : Name) (span : Span)
  | call (function : Name) (functionSpan : Span) (arguments : List Operand) (span : Span)
  | invoke (object : Operand) (method : Name) (methodSpan : Span)
      (arguments : List Operand) (span : Span)
  deriving Inhabited

namespace Operand

def span : Operand → Span
  | null span | boolean _ span | integer _ span | text _ _ span | reference _ span
  | member _ _ span | call _ _ _ span | invoke _ _ _ _ span => span

def isLiteral : Operand → Bool
  | null _ | boolean _ _ | integer _ _ | text _ _ _ => true
  | _ => false

mutual

/-- The operand without its spans. -/
def unplaced : Operand → Operand
  | null _ => null .nowhere
  | boolean value _ => boolean value .nowhere
  | integer value _ => integer value .nowhere
  | text value pattern _ => text value pattern .nowhere
  | reference name _ => reference name .nowhere
  | member object property _ => member object.unplaced property .nowhere
  | call function _ arguments _ =>
      call function .nowhere (unplacedAll arguments) .nowhere
  | invoke object method _ arguments _ =>
      invoke object.unplaced method .nowhere (unplacedAll arguments) .nowhere

def unplacedAll : List Operand → List Operand
  | [] => []
  | operand :: operands => operand.unplaced :: unplacedAll operands

end

mutual

/-- Whether two operands are the same, spans included. -/
def same : Operand → Operand → Bool
  | null span, null span' => span == span'
  | boolean value span, boolean value' span' => value == value' && span == span'
  | integer value span, integer value' span' => value == value' && span == span'
  | text value pattern span, text value' pattern' span' =>
      value == value' && pattern == pattern' && span == span'
  | reference name span, reference name' span' => name == name' && span == span'
  | member object property span, member object' property' span' =>
      same object object' && property == property' && span == span'
  | call function functionSpan arguments span,
      call function' functionSpan' arguments' span' =>
      function == function' && functionSpan == functionSpan' &&
        sameAll arguments arguments' && span == span'
  | invoke object method methodSpan arguments span,
      invoke object' method' methodSpan' arguments' span' =>
      same object object' && method == method' && methodSpan == methodSpan' &&
        sameAll arguments arguments' && span == span'
  | _, _ => false

def sameAll : List Operand → List Operand → Bool
  | [], [] => true
  | operand :: operands, operand' :: operands' =>
      same operand operand' && sameAll operands operands'
  | _, _ => false

end

mutual

theorem same_iff : (operand operand' : Operand) →
    (same operand operand' = true ↔ operand = operand')
  | null _, other | boolean _ _, other | integer _ _, other | text _ _ _, other
  | reference _ _, other => by cases other <;> simp [same, and_assoc]
  | member object _ _, other => by
      cases other <;> simp [same, same_iff object, and_assoc]
  | call _ _ arguments _, other => by
      cases other <;> simp [same, sameAll_iff arguments, and_assoc]
  | invoke object _ _ arguments _, other => by
      cases other <;> simp [same, same_iff object, sameAll_iff arguments, and_assoc]

theorem sameAll_iff : (operands operands' : List Operand) →
    (sameAll operands operands' = true ↔ operands = operands')
  | [], other => by cases other <;> simp [sameAll]
  | operand :: operands, other => by
      cases other <;> simp [sameAll, same_iff operand, sameAll_iff operands]

end

instance : DecidableEq Operand := fun operand operand' =>
  decidable_of_iff _ (same_iff operand operand')

end Operand

structure Comparison where
  left : Operand
  relation : Relation
  right : Operand
  span : Span
  deriving DecidableEq, Inhabited

namespace Comparison

def unplaced (comparison : Comparison) : Comparison :=
  ⟨comparison.left.unplaced, comparison.relation, comparison.right.unplaced, .nowhere⟩

end Comparison

/-- What a segment asks of a node. -/
inductive Predicate where
  | compare (comparison : Comparison)
  | and (left right : Predicate)
  | or (left right : Predicate)
  deriving DecidableEq, Inhabited

namespace Predicate

def unplaced : Predicate → Predicate
  | compare comparison => compare comparison.unplaced
  | and left right => and left.unplaced right.unplaced
  | or left right => or left.unplaced right.unplaced

/-- The comparisons in written order. -/
def comparisons : Predicate → List Comparison
  | compare comparison => [comparison]
  | and left right | or left right => left.comparisons ++ right.comparisons

/-- Comparisons that hold whenever the predicate does. -/
def conjuncts : Predicate → List Comparison
  | compare comparison => [comparison]
  | and left right => left.conjuncts ++ right.conjuncts
  | or _ _ => []

/-- How tightly the outermost operator binds. -/
def precedence : Predicate → Nat
  | or _ _ => 1
  | and _ _ => 2
  | compare _ => 3

end Predicate

end TreeSelector

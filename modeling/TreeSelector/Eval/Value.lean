import TreeSelector.Eval.Context
import TreeSelector.Language.Operator
import TreeSelector.Tree.Attribute

/-!
# Values

What operands evaluate to.  Whatever cannot be computed, be it a missing
attribute, a failed question to the host or a sum that does not fit 32 bits, is
null.
-/

namespace TreeSelector

inductive Value where
  | null
  | boolean (value : Bool)
  | int (value : Int32)
  | string (value : String)
  | node (node : NodeId)
  | context (context : Context)
  deriving DecidableEq

namespace Value

def isNull (value : Value) : Bool := value = null

def ofAttribute : AttributeValue → Value
  | .absent => null
  | .boolean value => boolean value
  | .int value => int value
  | .string value => string value

/-- A value, or null where there is none. -/
def orNull (make : α → Value) : Option α → Value
  | some value => make value
  | none => null

/-- Whether a relation holds between two values.  Textual relations hold between
texts only and orderings between integers only; patterns are not values. -/
def compare : Relation → Value → Value → Bool
  | .equal, left, right => left = right
  | .notEqual, left, right => left ≠ right
  | .beginsWith, string left, string right => Text.beginsWith left right
  | .notBeginsWith, string left, string right => !Text.beginsWith left right
  | .contains, string left, string right => Text.contains left right
  | .notContains, string left, string right => !Text.contains left right
  | .endsWith, string left, string right => Text.endsWith left right
  | .notEndsWith, string left, string right => !Text.endsWith left right
  | .less, int left, int right => left < right
  | .lessEqual, int left, int right => left ≤ right
  | .more, int left, int right => right < left
  | .moreEqual, int left, int right => right ≤ left
  | _, _, _ => false

end Value

end TreeSelector

import TreeSelector.Language.Name
import TreeSelector.Text.Search

/-!
# Attributes of tree nodes

What a host reads straight off a node, and the keys by which a host can look
nodes up without walking its tree.
-/

namespace TreeSelector

inductive Attribute where
  | id | vid | className | text | desc
  | clickable | focusable | checkable | checked | editable | longClickable | visibleToUser
  | left | top | right | bottom | width | height
  deriving DecidableEq, Repr

inductive AttributeValue where
  | absent
  | boolean (value : Bool)
  | int (value : Int32)
  | string (value : String)
  deriving DecidableEq

namespace Attribute

/-- The attribute a symbol names.  Names that concern the place of a node in its
tree are none. -/
def ofSymbol? : Symbol → Option Attribute
  | .id => some id
  | .vid => some vid
  | .className => some className
  | .text => some text
  | .desc => some desc
  | .clickable => some clickable
  | .focusable => some focusable
  | .checkable => some checkable
  | .checked => some checked
  | .editable => some editable
  | .longClickable => some longClickable
  | .visibleToUser => some visibleToUser
  | .left => some left
  | .top => some top
  | .right => some right
  | .bottom => some bottom
  | .width => some width
  | .height => some height
  | _ => none

end Attribute

/-- A key of a host's index. -/
inductive IndexKey where
  | id (value : String)
  | vid (value : String)
  /-- Nodes whose `text` contains the value. -/
  | text (value : String)
  deriving DecidableEq, Repr

namespace IndexKey

def subject : IndexKey → Attribute
  | id _ => .id
  | vid _ => .vid
  | text _ => .text

/-- Whether a node with this value of the key's attribute is looked for. -/
def accepts (key : IndexKey) : AttributeValue → Bool
  | .string actual =>
      match key with
      | id value | vid value => actual == value
      | text value => Text.contains actual value
  | _ => false

end IndexKey

end TreeSelector

import TreeSelector.Tree.Attribute

/-!
# Captured nodes

A node tree as it was captured from a host: the attributes of each node with its
children nested inside.
-/

namespace TreeSelector

/-- What is known of one node, its children aside. -/
structure NodeData where
  id : Option String := none
  vid : Option String := none
  className : Option String := none
  text : Option String := none
  desc : Option String := none
  clickable : Bool := false
  focusable : Bool := false
  checkable : Bool := false
  checked : Bool := false
  editable : Bool := false
  longClickable : Bool := false
  visibleToUser : Bool := true
  left : Int32 := 0
  top : Int32 := 0
  right : Int32 := 0
  bottom : Int32 := 0
  /-- The application of the node, if it is not that of the parent. -/
  appId : Option String := none
  deriving DecidableEq, Inhabited

namespace NodeData

/-- The distance from `first` to `second`, or the nearest 32-bit integer to it. -/
def extent (first second : Int32) : Int32 :=
  Int32.ofInt (max (-2147483648) (min 2147483647 (second.toInt - first.toInt)))

def textValue : Option String → AttributeValue
  | some text => .string text
  | none => .absent

def attributeValue (data : NodeData) : Attribute → AttributeValue
  | .id => textValue data.id
  | .vid => textValue data.vid
  | .className => textValue data.className
  | .text => textValue data.text
  | .desc => textValue data.desc
  | .clickable => .boolean data.clickable
  | .focusable => .boolean data.focusable
  | .checkable => .boolean data.checkable
  | .checked => .boolean data.checked
  | .editable => .boolean data.editable
  | .longClickable => .boolean data.longClickable
  | .visibleToUser => .boolean data.visibleToUser
  | .left => .int data.left
  | .top => .int data.top
  | .right => .int data.right
  | .bottom => .int data.bottom
  | .width => .int (extent data.left data.right)
  | .height => .int (extent data.top data.bottom)

/-- The view id that an id of the form `app:id/view` has in the application `app`. -/
def derivedVid (id appId : Option String) : Option String := do
  let rest ← Text.dropLeading? (← appId).toList (← id).toList
  String.ofList <$> Text.dropLeading? ":id/".toList rest

/-- The node's data within an application: a missing view id is derived. -/
def within (data : NodeData) (appId : Option String) : NodeData :=
  { data with vid := data.vid.or (derivedVid data.id appId) }

end NodeData

inductive CapturedNode where
  | node (data : NodeData) (children : List CapturedNode)
  deriving Inhabited

namespace CapturedNode

def data : CapturedNode → NodeData
  | node data _ => data

def children : CapturedNode → List CapturedNode
  | node _ children => children

end CapturedNode

end TreeSelector

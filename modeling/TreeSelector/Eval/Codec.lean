import TreeSelector.Eval.Value
import TreeSelector.Json.Record

/-!
# Values as JSON

Plain values stand for themselves; a node is an object with its number, and a
context one with the numbers of its nodes.
-/

namespace TreeSelector

open Json

def Context.toJson (context : Context) : Json := ofList ofNat context.toList

/-- The context whose nodes are listed, the latest first. -/
def Context.ofJson? (value : Json) : Option Context :=
  (value.toList? toNat?).bind Context.ofList?

def Value.toJson : Value → Json
  | .null => .null
  | .boolean value => .boolean value
  | .int value => .integer value.toInt
  | .string value => .string value
  | .node number => .object [("node", ofNat number)]
  | .context nodes => .object [("context", nodes.toJson)]

def Value.ofJson? : Json → Option Value
  | .null => some .null
  | .boolean value => some (.boolean value)
  | .integer value => (Text.int32? value).map .int
  | .string value => some (.string value)
  | .object [("node", number)] => number.toNat?.map .node
  | .object [("context", nodes)] => (Context.ofJson? nodes).map .context
  | _ => none

def IndexKey.toJson : IndexKey → Json
  | .id value => .object [("id", .string value)]
  | .vid value => .object [("vid", .string value)]
  | .text value => .object [("text", .string value)]

def IndexKey.ofJson? : Json → Option IndexKey
  | .object [("id", .string value)] => some (.id value)
  | .object [("vid", .string value)] => some (.vid value)
  | .object [("text", .string value)] => some (.text value)
  | _ => none

end TreeSelector

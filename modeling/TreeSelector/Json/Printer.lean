import TreeSelector.Json.Basic
import TreeSelector.Text.Escape

/-!
# Writing JSON

The compact text of a value: no blanks, and members in the order of the object.
-/

namespace TreeSelector.Json

def encodeChar (char : Char) : List Char :=
  if char = '"' then ['\\', '"']
  else if char = '\\' then ['\\', '\\']
  else if char = '\n' then ['\\', 'n']
  else if char = '\r' then ['\\', 'r']
  else if char = '\t' then ['\\', 't']
  else if char = Char.ofNat 8 then ['\\', 'b']
  else if char = Char.ofNat 12 then ['\\', 'f']
  else if char.toNat < 32 then
    '\\' :: 'u' :: '0' :: '0' :: Text.Escape.hexPair char.toNat
  else [char]

/-- The characters of a string, in quotes. -/
def encodeString (text : String) : List Char :=
  '"' :: (text.toList.flatMap encodeChar ++ ['"'])

mutual

def encode : Json → List Char
  | null => "null".toList
  | boolean value => if value then "true".toList else "false".toList
  | integer value => (Text.signedDecimal value).toList
  | real literal => literal.toList
  | string value => encodeString value
  | array items => '[' :: (encodeItems items ++ [']'])
  | object members => '\x7b' :: (encodeMembers members ++ ['\x7d'])

/-- The characters of some values, with commas between them. -/
def encodeItems : List Json → List Char
  | [] => []
  | [item] => encode item
  | item :: next :: items => encode item ++ ',' :: encodeItems (next :: items)

/-- The characters of some members, with commas between them. -/
def encodeMembers : List (String × Json) → List Char
  | [] => []
  | [(name, value)] => encodeString name ++ ':' :: encode value
  | (name, value) :: next :: members =>
      encodeString name ++ ':' :: (encode value ++ ',' :: encodeMembers (next :: members))

end

def render (value : Json) : String := String.ofList (encode value)

end TreeSelector.Json

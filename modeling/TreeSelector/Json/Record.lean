import TreeSelector.Json.Basic
import TreeSelector.Text.Radix

/-!
# Records as JSON objects

How the fields of a record are looked up in an object and written to one.  Names
are case sensitive, and members with other names are ignored.  A field that may
be missing can also be null; any other field cannot.
-/

namespace TreeSelector.Json

/-- The members of an object in which none of the known names is repeated. -/
def members? (known : List String) : Json → Option (List (String × Json))
  | object members =>
      if known.all fun name => (members.filter (·.1 == name)).length ≤ 1 then some members
      else none
  | _ => none

def member? (members : List (String × Json)) (name : String) : Option Json :=
  members.lookup name

def required (decode : Json → Option α) (members : List (String × Json)) (name : String) :
    Option α :=
  (member? members name).bind decode

/-- A field with a default. -/
def fieldOr (default : α) (decode : Json → Option α) (members : List (String × Json))
    (name : String) : Option α :=
  match member? members name with
  | some value => decode value
  | none => some default

/-- A field that may be missing or null. -/
def optional (decode : Json → Option α) (members : List (String × Json)) (name : String) :
    Option (Option α) :=
  match member? members name with
  | some null | none => some none
  | some value => (decode value).map some

section Decoders

def toBool? : Json → Option Bool
  | boolean value => some value
  | _ => none

def toString? : Json → Option String
  | string value => some value
  | _ => none

def toInt32? : Json → Option Int32
  | integer value => Text.int32? value
  | _ => none

def toNat? : Json → Option Nat
  | integer value => if 0 ≤ value then some value.toNat else none
  | _ => none

def toUInt32? (value : Json) : Option UInt32 := value.toNat?.bind Text.uint32?

def toUInt64? (value : Json) : Option UInt64 := value.toNat?.bind Text.uint64?

/-- One of several titles: by itself, or as the only member of an object, which is
null. -/
def toAlternative? (ofTitle? : String → Option α) : Json → Option α
  | string title | object [(title, null)] => ofTitle? title
  | _ => none

def allOf (decode : Json → Option α) : List Json → Option (List α)
  | [] => some []
  | item :: items => do
      let value ← decode item
      let values ← allOf decode items
      return value :: values

def toList? (decode : Json → Option α) : Json → Option (List α)
  | array items => allOf decode items
  | _ => none

end Decoders

section Encoders

def ofNat (value : Nat) : Json := integer value

def ofList (encode : α → Json) (values : List α) : Json := array (values.map encode)

def ofOption (encode : α → Json) : Option α → Json
  | some value => encode value
  | none => null

/-- A field that is left out if it is missing. -/
def unlessMissing (name : String) (encode : α → Json) : Option α → List (String × Json)
  | some value => [(name, encode value)]
  | none => []

end Encoders

end TreeSelector.Json

/-!
# JSON values

Objects keep their members in order, repeated names included.  Numbers are told
apart by how they are written: only those without fraction and exponent are
integers, and minus zero is none.
-/

namespace TreeSelector

inductive Json where
  | null
  | boolean (value : Bool)
  | integer (value : Int)
  /-- A number that is not written as an integer. -/
  | real (literal : String)
  | string (value : String)
  | array (items : List Json)
  | object (members : List (String × Json))
  deriving Inhabited

end TreeSelector

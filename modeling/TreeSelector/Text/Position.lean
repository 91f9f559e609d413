import TreeSelector.Text.Search

/-!
# Lines and columns

A byte offset of a text as a line and a column, both counted from one.  Lines
end at a line feed, a carriage return before it belongs to the line end, and the
column counts characters.
-/

namespace TreeSelector.Text

structure Position where
  line : Nat
  column : Nat
  deriving DecidableEq, Repr

/-- Moves a position over the characters that lie within the next `bytes` bytes. -/
def Position.advance (position : Position) : List Char → Nat → Position
  | [], _ => position
  | '\r' :: '\n' :: rest, bytes + 2 =>
      Position.advance ⟨position.line + 1, 1⟩ rest bytes
  | char :: rest, bytes =>
      if bytes < char.utf8Size then position
      else if char = '\n' then
        Position.advance ⟨position.line + 1, 1⟩ rest (bytes - char.utf8Size)
      else
        Position.advance ⟨position.line, position.column + 1⟩ rest (bytes - char.utf8Size)

/-- Line and column of a byte offset. -/
def positionAt (text : List Char) (offset : Nat) : Position :=
  Position.advance ⟨1, 1⟩ text offset

end TreeSelector.Text

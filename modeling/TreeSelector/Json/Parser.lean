import TreeSelector.Json.Basic
import TreeSelector.Text.Escape

/-!
# Reading JSON

A strict reader: one value, blanks around it, and nothing else.  Strings hold no
control characters and no half surrogate pairs, and containers nest at most 127
deep.
-/

namespace TreeSelector.Json

namespace Reader

/-- Reads a piece of a text: its value and what is left. -/
abbrev Parser (α : Type) : Type := List Char → Option (α × List Char)

def maxNesting : Nat := 127

section Tokens

def isBlank (char : Char) : Bool :=
  char = ' ' || char = '\t' || char = '\n' || char = '\r'

def skipBlanks (source : List Char) : List Char := source.dropWhile isBlank

/-- The value of four hexadecimal digits. -/
def hexUnit : Parser Nat := fun source =>
  let digits := source.take 4
  if digits.length = 4 then
    (Text.Radix.natural? 16 digits).map fun code => (code, source.drop 4)
  else none

/-- Codes of the first half of a surrogate pair. -/
def isHighSurrogate (code : Nat) : Bool := 0xD800 ≤ code && code < 0xDC00

/-- Codes of the second half of a surrogate pair. -/
def isLowSurrogate (code : Nat) : Bool := 0xDC00 ≤ code && code < 0xE000

/-- The character that the rest of an escape `\u` stands for. -/
def unicodeEscape : Parser Char := fun source => do
  let (first, rest) ← hexUnit source
  if isHighSurrogate first then
    match rest with
    | '\\' :: 'u' :: rest => do
        let (second, rest) ← hexUnit rest
        if isLowSurrogate second then
          let code := 0x10000 + (first - 0xD800) * 0x400 + (second - 0xDC00)
          return (← Text.Escape.scalar? code, rest)
        else none
    | _ => none
  else return (← Text.Escape.scalar? first, rest)

/-- The character that an escape stands for, behind its backslash. -/
def escape : Parser Char
  | '"' :: rest => some ('"', rest)
  | '\\' :: rest => some ('\\', rest)
  | '/' :: rest => some ('/', rest)
  | 'b' :: rest => some (Char.ofNat 8, rest)
  | 'f' :: rest => some (Char.ofNat 12, rest)
  | 'n' :: rest => some ('\n', rest)
  | 'r' :: rest => some ('\r', rest)
  | 't' :: rest => some ('\t', rest)
  | 'u' :: rest => unicodeEscape rest
  | _ => none

/-- The rest of a string, behind its opening quote.  It has at most `fuel`
characters. -/
def stringRest : (fuel : Nat) → Parser (List Char)
  | 0, _ => none
  | _, [] => none
  | fuel + 1, char :: source =>
      if char = '"' then some ([], source)
      else if char = '\\' then do
        let (char, rest) ← escape source
        let (chars, rest) ← stringRest fuel rest
        return (char :: chars, rest)
      else if char.toNat < 32 then none
      else do
        let (chars, rest) ← stringRest fuel source
        return (char :: chars, rest)

def string : Parser String
  | '"' :: source =>
      (stringRest (source.length + 1) source).map fun (chars, rest) =>
        (String.ofList chars, rest)
  | _ => none

def digits : Parser (List Char) := fun source =>
  let taken := source.takeWhile Char.isDigit
  if taken.isEmpty then none else some (taken, source.dropWhile Char.isDigit)

/-- The digits before a decimal point; only zero begins with a zero. -/
def wholePart : Parser (List Char)
  | '0' :: source => some (['0'], source)
  | source => digits source

/-- A decimal point with digits, or nothing. -/
def fraction : Parser (List Char)
  | '.' :: source => (digits source).map fun (taken, rest) => ('.' :: taken, rest)
  | source => some ([], source)

/-- An exponent, or nothing. -/
def exponent : Parser (List Char)
  | mark :: source =>
      if mark = 'e' || mark = 'E' then
        match source with
        | '+' :: source => (digits source).map fun (taken, rest) => (mark :: '+' :: taken, rest)
        | '-' :: source => (digits source).map fun (taken, rest) => (mark :: '-' :: taken, rest)
        | source => (digits source).map fun (taken, rest) => (mark :: taken, rest)
      else some ([], mark :: source)
  | [] => some ([], [])

/-- The value of a number, given the pieces it was written in. -/
def numberOf (negative : Bool) (whole fraction exponent : List Char) : Json :=
  let sign := if negative then ['-'] else []
  match Text.Radix.natural? 10 whole with
  | some magnitude =>
      if fraction.isEmpty && exponent.isEmpty && !(negative && magnitude == 0) then
        .integer (if negative then -(magnitude : Int) else magnitude)
      else .real (String.ofList (sign ++ whole ++ fraction ++ exponent))
  | none => .real (String.ofList (sign ++ whole ++ fraction ++ exponent))

def number : Parser Json := fun source => do
  let (negative, source) :=
    match source with
    | '-' :: source => (true, source)
    | source => (false, source)
  let (whole, source) ← wholePart source
  let (fraction, source) ← fraction source
  let (exponent, source) ← exponent source
  return (numberOf negative whole fraction exponent, source)

/-- A fixed word and the value it stands for. -/
def word (text : String) (value : Json) : Parser Json := fun source =>
  (Text.dropLeading? text.toList source).map fun rest => (value, rest)

def scalar : Parser Json
  | [] => none
  | 'n' :: source => word "null" .null ('n' :: source)
  | 't' :: source => word "true" (.boolean true) ('t' :: source)
  | 'f' :: source => word "false" (.boolean false) ('f' :: source)
  | '"' :: source => (string ('"' :: source)).map fun (text, rest) => (.string text, rest)
  | source => number source

end Tokens

section Containers

/-- The pieces of a list between commas, up to the closing character.  There are at
most `fuel` pieces, and at least one. -/
def pieces (piece : Parser α) (closing : Char) : (fuel : Nat) → Parser (List α)
  | 0, _ => none
  | fuel + 1, source => do
      let (first, rest) ← piece (skipBlanks source)
      match skipBlanks rest with
      | ',' :: rest => do
          let (others, rest) ← pieces piece closing fuel rest
          return (first :: others, rest)
      | char :: rest => if char = closing then some ([first], rest) else none
      | [] => none

/-- The pieces of a list that may be empty, behind its opening character. -/
def piecesOrNone (piece : Parser α) (closing : Char) : Parser (List α) := fun source =>
  match skipBlanks source with
  | [] => none
  | char :: rest =>
      if char = closing then some ([], rest)
      else pieces piece closing (rest.length + 1) (char :: rest)

def member (value : Parser Json) : Parser (String × Json) := fun source => do
  let (name, rest) ← string source
  match skipBlanks rest with
  | ':' :: rest => do
      let (value, rest) ← value (skipBlanks rest)
      return ((name, value), rest)
  | _ => none

/-- A value whose containers nest at most `nesting` deep. -/
def value : (nesting : Nat) → Parser Json
  | 0, source => scalar source
  | nesting + 1, source =>
      match source with
      | '[' :: source =>
          (piecesOrNone (value nesting) ']' source).map fun (items, rest) =>
            (.array items, rest)
      | '\x7b' :: source =>
          (piecesOrNone (member (value nesting)) '\x7d' source).map fun (members, rest) =>
            (.object members, rest)
      | source => scalar source

end Containers

end Reader

def parse? (text : String) : Option Json := do
  let (value, rest) ← Reader.value Reader.maxNesting (Reader.skipBlanks text.toList)
  if (Reader.skipBlanks rest).isEmpty then some value else none

end TreeSelector.Json

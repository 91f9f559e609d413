import TreeSelector.Eval.Value
import TreeSelector.Text.Radix

/-!
# Methods of plain values

What the methods of booleans, integers and strings give for arguments none of
which is null.  Positions in strings count characters.
-/

namespace TreeSelector.Method

open Value (orNull)

/-- An integer result, null unless it fits 32 bits. -/
def integer (value : Int) : Value := orNull .int (Text.int32? value)

/-- A count as a 32-bit integer. -/
def count (value : Nat) : Value := .int (Int32.ofNat value)

section Booleans

def ofBoolean (value : Bool) : Symbol → List Value → Value
  | .toInt, [] => .int (if value then 1 else 0)
  | .not, [] => .boolean (!value)
  | .or, [.boolean other] => .boolean (value || other)
  | .and, [.boolean other] => .boolean (value && other)
  | .ifElse, [yes, no] => if value then yes else no
  | _, _ => .null

end Booleans

section Integers

/-- Radices for writing and reading integers. -/
def radix? (value : Int32) : Option Nat :=
  if 2 ≤ value ∧ value ≤ 36 then some value.toInt.toNat else none

def textOf (value : Int32) (radix : Nat) : Value :=
  .string (String.ofList (Text.Radix.integerText radix value.toInt))

def ofInt (value : Int32) : Symbol → List Value → Value
  | .toText, [] => .string (Text.signedDecimal value.toInt)
  | .toText, [.int radix] =>
      match radix? radix with
      | some radix => textOf value radix
      | none => .null
  | .plus, [.int other] => integer (value.toInt + other.toInt)
  | .minus, [.int other] => integer (value.toInt - other.toInt)
  | .times, [.int other] => integer (value.toInt * other.toInt)
  | .div, [.int other] =>
      if other = 0 then .null else integer (value.toInt.tdiv other.toInt)
  | .rem, [.int other] =>
      -- the remainder of the least integer by minus one counts as too large, like
      -- the quotient it belongs to
      if other = 0 ∨ (integer (value.toInt.tdiv other.toInt)).isNull then .null
      else integer (value.toInt.tmod other.toInt)
  | .more, [.int other] => .boolean (other < value)
  | .moreEqual, [.int other] => .boolean (other ≤ value)
  | .less, [.int other] => .boolean (value < other)
  | .lessEqual, [.int other] => .boolean (value ≤ other)
  | _, _ => .null

end Integers

section Strings

/-- The characters from `start` up to `stop`, if these are positions in order. -/
def slice (chars : List Char) (start stop : Int) : Value :=
  if 0 ≤ start ∧ start ≤ stop ∧ stop ≤ chars.length then
    .string (String.ofList ((chars.drop start.toNat).take (stop - start).toNat))
  else .null

/-- The first position, from `start` on, at which a text occurs; -1 if there is none. -/
def indexOf (chars part : List Char) (start : Nat) : Value :=
  if chars.length < start then .int (-1)
  else
    match Text.firstOccurrence part (chars.drop start) with
    | some position => count (start + position)
    | none => .int (-1)

def parse (radix : Nat) (chars : List Char) : Value :=
  orNull .int ((Text.Radix.integer? radix chars).bind Text.int32?)

def ofString (value : String) (method : Symbol) (arguments : List Value) : Value :=
  let chars := value.toList
  match method, arguments with
  | .get, [.int position] => slice chars position.toInt (position.toInt + 1)
  | .charAt, [.int position] =>
      let position :=
        if position < 0 then chars.length + position.toInt else position.toInt
      slice chars position (position + 1)
  | .substring, [.int start] => slice chars start.toInt chars.length
  | .substring, [.int start, .int stop] => slice chars start.toInt stop.toInt
  | .toInt, [] => parse 10 chars
  | .toInt, [.int radix] =>
      match radix? radix with
      | some radix => parse radix chars
      | none => .null
  | .indexOf, [.string part] => indexOf chars part.toList 0
  | .indexOf, [.string part, .int start] => indexOf chars part.toList start.toInt.toNat
  | _, _ => .null

end Strings

def ofPlain : Value → Symbol → List Value → Value
  | .boolean value, method, arguments => ofBoolean value method arguments
  | .int value, method, arguments => ofInt value method arguments
  | .string value, method, arguments => ofString value method arguments
  | _, _, _ => .null

def plainAttribute : Value → Symbol → Value
  | .string value, .length => count value.toList.length
  | _, _ => .null

end TreeSelector.Method

/-!
# Integers written in a radix

Radices run from 2 to 36; digits past nine are letters, written in lower case
and read in either case.  Reading takes an optional sign and refuses what does
not fit the integer type.
-/

namespace TreeSelector.Text.Radix

/-- The character for a digit below 36. -/
def digitChar (digit : Nat) : Char :=
  if digit < 10 then Char.ofNat ('0'.toNat + digit)
  else Char.ofNat ('a'.toNat + (digit - 10))

/-- The digit a character stands for, whatever the radix. -/
def digitValue? (char : Char) : Option Nat :=
  if '0' ≤ char ∧ char ≤ '9' then some (char.toNat - '0'.toNat)
  else if 'a' ≤ char ∧ char ≤ 'z' then some (char.toNat - 'a'.toNat + 10)
  else if 'A' ≤ char ∧ char ≤ 'Z' then some (char.toNat - 'A'.toNat + 10)
  else none

/-- The digits of a number, most significant first, without leading zeros. -/
def digits (radix value : Nat) : List Nat :=
  if _small : radix < 2 ∨ value < radix then [value]
  else digits radix (value / radix) ++ [value % radix]
termination_by value
decreasing_by exact Nat.div_lt_self (by omega) (by omega)

/-- The text of a number: its digits as characters. -/
def naturalText (radix value : Nat) : List Char :=
  (digits radix value).map digitChar

/-- The text of an integer: its magnitude, after a minus sign if negative. -/
def integerText (radix : Nat) (value : Int) : List Char :=
  if value < 0 then '-' :: naturalText radix value.natAbs
  else naturalText radix value.natAbs

/-- Reads one more digit of the radix onto a number. -/
def pushDigit (radix value : Nat) (char : Char) : Option Nat := do
  let digit ← digitValue? char
  if digit < radix then some (value * radix + digit) else none

/-- The number a nonempty list of digits of the radix denotes. -/
def natural? (radix : Nat) : List Char → Option Nat
  | [] => none
  | chars => chars.foldlM (pushDigit radix) 0

/-- The integer that an optional sign and digits of the radix denote. -/
def integer? (radix : Nat) : List Char → Option Int
  | '-' :: chars => (natural? radix chars).map (fun magnitude => -(magnitude : Int))
  | '+' :: chars => (natural? radix chars).map Int.ofNat
  | chars => (natural? radix chars).map Int.ofNat

end TreeSelector.Text.Radix

namespace TreeSelector.Text

def decimal (value : Nat) : String :=
  String.ofList (Radix.naturalText 10 value)

def signedDecimal (value : Int) : String :=
  String.ofList (Radix.integerText 10 value)

/-- The 32-bit integer equal to `value`, if there is one. -/
def int32? (value : Int) : Option Int32 :=
  if -2147483648 ≤ value ∧ value ≤ 2147483647 then some (Int32.ofInt value) else none

def uint32? (value : Nat) : Option UInt32 :=
  if value < 4294967296 then some (UInt32.ofNat value) else none

def uint64? (value : Nat) : Option UInt64 :=
  if value < 18446744073709551616 then some (UInt64.ofNat value) else none

end TreeSelector.Text

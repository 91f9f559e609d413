import TreeSelector.Grammar.Reader
import TreeSelector.Language.Operator

/-!
# Tokens

Scanners for the words, numbers, strings and operators of the selector language.
Letters and digits are those of ASCII.
-/

namespace TreeSelector.Grammar.Token

def isNameStart (char : Char) : Bool := char.isAlpha || char = '_'

def isNameChar (char : Char) : Bool := char.isAlphanum || char = '_'

def exactly (text : String) : Scanner := fun source =>
  (Text.dropLeading? text.toList source).map (text.toList, ·)

/-- Whether a text begins with a character that would continue a name. -/
def continuesName : List Char → Bool
  | [] => false
  | char :: _ => isNameChar char

/-- Cuts off a fixed word that no letter, digit or underscore follows. -/
def word (text : String) : Scanner := fun source =>
  (exactly text source).filter fun (_, rest) => !continuesName rest

/-- Cuts off whatever the first scanner that succeeds does. -/
def anyOf (scanners : List Scanner) : Scanner := fun source =>
  scanners.findSome? (· source)

def digits : Scanner := fun source =>
  let taken := source.takeWhile Char.isDigit
  if taken.isEmpty then none else some (taken, source.dropWhile Char.isDigit)

/-- Cuts off digits after an optional minus sign. -/
def integer : Scanner
  | '-' :: source => (digits source).map fun (taken, rest) => ('-' :: taken, rest)
  | source => digits source

/-- Cuts off a name, which may be a word of the language. -/
def name : Scanner
  | [] => none
  | char :: source =>
      if isNameStart char then
        some (char :: source.takeWhile isNameChar, source.dropWhile isNameChar)
      else none

/-- The words that are not identifiers. -/
def keywords : List String := ["and", "or", "true", "false", "null"]

/-- Cuts off a name that is not a word of the language. -/
def identifier : Scanner := fun source =>
  if (anyOf (keywords.map word) source).isSome then none else name source

def null : Scanner := word "null"

def boolean : Scanner := anyOf [word "true", word "false"]

def and : Scanner := anyOf [exactly "&&", word "and"]

def or : Scanner := anyOf [exactly "||", word "or"]

def relation : Scanner :=
  anyOf (Relation.all.map fun relation => exactly relation.spelling)

/-- Cuts off the body of a string up to the closing quote.  A backslash takes
the next character with it. -/
def stringBody (quote : Char) : List Char → List Char × List Char
  | [] => ([], [])
  | '\\' :: [] => ([], ['\\'])
  | '\\' :: char :: source =>
      let (body, rest) := stringBody quote source
      ('\\' :: char :: body, rest)
  | char :: source =>
      if char = quote then ([], char :: source)
      else
        let (body, rest) := stringBody quote source
        (char :: body, rest)

def string (quote : Char) : Scanner
  | [] => none
  | opening :: source =>
      if opening = quote then
        match stringBody quote source with
        | (body, closing :: rest) =>
            if closing = quote then some (quote :: body ++ [quote], rest) else none
        | (_, []) => none
      else none

def text : Scanner := anyOf [string '"', string '\'']

end TreeSelector.Grammar.Token

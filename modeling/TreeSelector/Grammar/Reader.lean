import TreeSelector.Grammar.Trace
import TreeSelector.Language.Span
import TreeSelector.Text.Search

/-!
# Readers

A reader consumes a piece of selector source.  It either succeeds with a value
and the place behind the piece, or fails and consumes nothing; in both cases it
leaves a trace of the rules that failed on the way.  Alternatives are tried in
order and a repetition takes as many pieces as it can get.
-/

namespace TreeSelector.Grammar

/-- A place in the source: the byte offset, and the characters from there on. -/
structure Cursor where
  offset : Nat
  rest : List Char
  deriving Inhabited

namespace Cursor

def start (source : List Char) : Cursor := ⟨0, source⟩

/-- The place behind `taken`, where `rest` is left. -/
def past (cursor : Cursor) (taken rest : List Char) : Cursor :=
  ⟨cursor.offset + Text.byteLength taken, rest⟩

end Cursor

/-- What came of reading at some place. -/
structure Outcome (α : Type) where
  result : Option (α × Cursor)
  trace : Trace

/-- A way to read a value at a given place. -/
def Reader (α : Type) : Type := Cursor → Outcome α

/-- A way to cut a token off the front of a text: the token and what is left. -/
abbrev Scanner : Type := List Char → Option (List Char × List Char)

/-- A token with the span it was read from. -/
structure Lexeme where
  text : List Char
  span : Span
  deriving DecidableEq, Inhabited

namespace Reader

/-- Reads nothing and succeeds. -/
def succeed (value : α) : Reader α := fun cursor => ⟨some (value, cursor), .silent⟩

/-- Reads nothing and fails, leaving no trace. -/
def fail : Reader α := fun _ => ⟨none, .silent⟩

/-- Reads a piece, and then another one that may depend on it. -/
def andThen (first : Reader α) (next : α → Reader β) : Reader β := fun cursor =>
  match first cursor with
  | ⟨none, trace⟩ => ⟨none, trace⟩
  | ⟨some (value, behind), trace⟩ =>
      let outcome := next value behind
      ⟨outcome.result, .both trace outcome.trace⟩

instance : Monad Reader where
  pure := succeed
  bind := andThen

/-- Tries one reader and, where it fails, another one at the same place. -/
def orElse (first second : Reader α) : Reader α := fun cursor =>
  match first cursor with
  | ⟨some found, trace⟩ => ⟨some found, trace⟩
  | ⟨none, trace⟩ =>
      let outcome := second cursor
      ⟨outcome.result, .both trace outcome.trace⟩

def firstOf : List (Reader α) → Reader α
  | [] => fail
  | [reader] => reader
  | reader :: readers => reader.orElse (firstOf readers)

def optional (reader : Reader α) : Reader (Option α) :=
  (some <$> reader).orElse (succeed none)

def upTo : (limit : Nat) → Reader α → Reader (List α)
  | 0, _ => succeed []
  | limit + 1, reader =>
      (do
        let value ← reader
        let values ← upTo limit reader
        return value :: values).orElse (succeed [])

/-- Reads a piece under the name of a rule, whose failure is traced. -/
def rule (name : Rule) (reader : Reader α) : Reader α := fun cursor =>
  match reader cursor with
  | ⟨some found, trace⟩ => ⟨some found, trace⟩
  | ⟨none, trace⟩ => ⟨none, .failed name cursor.offset trace⟩

def scan (scanner : Scanner) : Reader Lexeme := fun cursor =>
  match scanner cursor.rest with
  | some (taken, rest) =>
      let behind := cursor.past taken rest
      ⟨some (⟨taken, cursor.offset, behind.offset⟩, behind), .silent⟩
  | none => ⟨none, .silent⟩

/-- Reads a token under the name of a rule. -/
def token (name : Rule) (scanner : Scanner) : Reader Lexeme :=
  rule name (scan scanner)

def literal (text : String) : Reader Lexeme :=
  scan fun source => (Text.dropLeading? text.toList source).map (text.toList, ·)

/-- Whether a character may stand between tokens. -/
def isBlank (char : Char) : Bool :=
  char = ' ' || char = '\t' || char = '\r' || char = '\n'

/-- Skips blanks, of which there may be none. -/
def blanks : Reader Lexeme :=
  scan fun source => some (source.takeWhile isBlank, source.dropWhile isBlank)

/-- Reads as many pieces as there are, with blanks between them.  Blanks behind
the last piece are left.  Every piece has at least one character, so their
number is bounded by the length of the source. -/
def many (reader : Reader α) : Reader (List α) := fun cursor =>
  (do
    let value ← reader
    let values ← upTo cursor.rest.length (blanks *> reader)
    return value :: values : Reader (List α)).orElse (succeed []) cursor

/-- Reads a piece together with its span. -/
def placed (reader : Reader α) : Reader (α × Span) := fun cursor =>
  match reader cursor with
  | ⟨some (value, behind), trace⟩ =>
      ⟨some ((value, ⟨cursor.offset, behind.offset⟩), behind), trace⟩
  | ⟨none, trace⟩ => ⟨none, trace⟩

end Reader

end TreeSelector.Grammar

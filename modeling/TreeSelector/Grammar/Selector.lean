import TreeSelector.Diagnostic
import TreeSelector.Grammar.Token

/-!
# Reading a selector

One reader for each rule of the grammar.  A reader that succeeds has found a
piece of source of the right form; whether the piece also makes sense is part of
its value, which is the piece of syntax or the first error in written order.
-/

namespace TreeSelector.Grammar

/-- A piece of syntax, or the first error in it. -/
abbrev Checked (α : Type) : Type := Except SelectorError α

namespace Checked

/-- All pieces, or the first error among them. -/
def all : List (Checked α) → Checked (List α)
  | [] => .ok []
  | piece :: pieces => do
      let value ← piece
      let values ← all pieces
      return value :: values

end Checked

open Reader

def Lexeme.content (lexeme : Lexeme) : String := String.ofList lexeme.text

section Literals

/-- The integer a lexeme denotes, which must fit 32 bits. -/
def integerOf (lexeme : Lexeme) : Checked Operand :=
  match (Text.Radix.integer? 10 lexeme.text).bind Text.int32? with
  | some value => .ok (.integer value lexeme.span)
  | none => .error (.integerTooLarge lexeme.content lexeme.span)

def Lexeme.body (lexeme : Lexeme) : List Char :=
  (lexeme.text.drop 1).dropLast

def textOf (lexeme : Lexeme) : Checked Operand :=
  match Text.Escape.decode lexeme.body with
  | .ok value => .ok (.text (String.ofList value) none lexeme.span)
  | .error bad =>
      let bodyStart := lexeme.span.start + 1
      .error (.invalidEscape bad.sequence ⟨bodyStart + bad.start, bodyStart + bad.stop⟩)

def primary : Reader (Checked Operand) :=
  firstOf [
    (fun lexeme => .ok (.null lexeme.span)) <$> token .null Token.null,
    (fun lexeme => .ok (.boolean (lexeme.content == "true") lexeme.span)) <$>
      token .boolean Token.boolean,
    integerOf <$> token .integer Token.integer,
    textOf <$> token .text Token.text,
    (fun lexeme => .ok (.reference (Name.ofSpelling lexeme.content) lexeme.span)) <$>
      token .identifier Token.identifier]

end Literals

section Operands

/-- What can follow an operand: a member access or the arguments of a call. -/
inductive Suffix where
  | member (property : Name) (span : Span)
  | call (arguments : Checked (List Operand)) (span : Span)

namespace Suffix

/-- The operand made of an operand and what follows it. -/
def applyTo (object : Operand) : Suffix → Checked Operand
  | member property span => .ok (.member object property (object.span.through span))
  | call arguments span => do
      let arguments ← arguments
      let whole := object.span.through span
      match object with
      | .reference name nameSpan => return .call name nameSpan arguments whole
      | .member owner method methodSpan => return .invoke owner method methodSpan arguments whole
      | other => throw (.notCallable other other.span)

end Suffix

def memberSuffix : Reader Suffix := do
  let (property, span) ← placed <| rule .member do
    let _ ← literal "."
    let _ ← blanks
    token .memberName Token.name
  return .member (Name.ofSpelling property.content) span

/-- The pieces of a list with commas between them. -/
def commaSeparated (item : Reader α) : Reader (List α) := do
  let first ← item
  let _ ← blanks
  let others ← many do
    let _ ← literal ","
    let _ ← blanks
    item
  return first :: others

def callSuffix (argument : Reader (Checked Operand)) : Reader Suffix := do
  let (arguments, span) ← placed <| rule .call do
    let _ ← literal "("
    let _ ← blanks
    let arguments ← optional (commaSeparated argument)
    let _ ← blanks
    let _ ← literal ")"
    return arguments.getD []
  return .call (Checked.all arguments) span

/-- An operand, given how its arguments are read. -/
def operandAround (argument : Reader (Checked Operand)) : Reader (Checked Operand) :=
  rule .operand do
    let start ← primary
    let _ ← blanks
    let suffixes ← many (memberSuffix.orElse (callSuffix argument))
    return do suffixes.foldlM Suffix.applyTo (← start)

/-- An operand whose calls are nested less than `depth` deep. -/
def operand : (depth : Nat) → Reader (Checked Operand)
  | 0 => fail
  | depth + 1 => operandAround (operand depth)

end Operands

section Predicates

/-- Gives the right side of a pattern relation its compiled pattern. -/
def withPattern (relation : Relation) : Operand → Checked Operand
  | .text value pattern span =>
      if relation.isPattern then
        match Pattern.compile? value with
        | some pattern => .ok (.text value (some pattern) span)
        | none => .error (.unsupportedPattern (Text.Escape.quote value) span)
      else .ok (.text value pattern span)
  | other => .ok other

def comparison (depth : Nat) : Reader (Checked Predicate) := do
  let ((left, relation, right), span) ← placed <| rule .comparison do
    let left ← operand depth
    let _ ← blanks
    let relation ← token .relation Token.relation
    let _ ← blanks
    let right ← operand depth
    return (left, (Relation.ofSpelling? relation.content).getD .equal, right)
  return do
    let left ← left
    let right ← right
    return .compare ⟨left, relation, ← withPattern relation right, span⟩

inductive Junction where
  | conjunction
  | disjunction
  deriving DecidableEq, Repr

/-- Combines predicates from left to right.  `pending` is a disjunction that waits
for its right operand, `current` the conjunction being built. -/
def combineFrom (pending : Option Predicate) (current : Predicate) :
    List (Junction × Predicate) → Predicate
  | [] => (pending.map (Predicate.or · current)).getD current
  | (.conjunction, next) :: others => combineFrom pending (.and current next) others
  | (.disjunction, next) :: others =>
      combineFrom (some ((pending.map (Predicate.or · current)).getD current)) next others

/-- Combines predicates: `and` binds tighter than `or`, and both associate to the
left. -/
def combine (first : Predicate) (others : List (Junction × Predicate)) : Predicate :=
  combineFrom none first others

def junction : Reader Junction :=
  ((fun _ => .conjunction) <$> token .and Token.and).orElse
    ((fun _ => .disjunction) <$> token .or Token.or)

/-- Terms with junctions between them, given how a parenthesized predicate is read. -/
def predicateAround (depth : Nat) (inner : Reader (Checked Predicate)) :
    Reader (Checked Predicate) :=
  let group := do
    let _ ← literal "("
    let _ ← blanks
    let predicate ← inner
    let _ ← blanks
    let _ ← literal ")"
    return predicate
  let term := group.orElse (comparison depth)
  rule .predicate do
    let first ← term
    let _ ← blanks
    let others ← many do
      let junction ← junction
      let _ ← blanks
      let next ← term
      return (junction, next)
    return do
      let first ← first
      let others ← Checked.all (others.map fun (junction, next) => (junction, ·) <$> next)
      return combine first others

/-- A predicate whose parentheses are nested less than `nesting` deep. -/
def predicate (depth : Nat) : (nesting : Nat) → Reader (Checked Predicate)
  | 0 => fail
  | nesting + 1 => predicateAround depth (predicate depth nesting)

end Predicates

section Windows

/-- The bounds of a window as written. -/
inductive Bounds where
  | exact (offset : Lexeme)
  | range (min max : Option Lexeme)

/-- The offset that digits denote, which must fit 32 bits. -/
def offset? (lexeme : Lexeme) : Option UInt32 :=
  (Text.Radix.natural? 10 lexeme.text).bind Text.uint32?

/-- The bounds as offsets, unless one of them is too large. -/
def Bounds.window? : Bounds → Option Window
  | exact digits => do
      let offset ← offset? digits
      return ⟨offset, some offset⟩
  | range min max => do
      let min ← match min with
        | some digits => offset? digits
        | none => some 0
      match max with
      | some digits => return ⟨min, some (← offset? digits)⟩
      | none => return ⟨min, none⟩

/-- The window written as some bounds, whose text and span are given. -/
def checkedWindow (written : String) (span : Span) (bounds : Bounds) : Checked Window :=
  match bounds.window? with
  | none => .error (.invalidWindow written .boundTooLarge span)
  | some window =>
      if window.max.any (· < window.min) then
        .error (.invalidWindow written .boundsReversed span)
      else .ok window

def windowRange : Reader Bounds :=
  rule .windowRange do
    let min ← optional (token .windowMin Token.digits)
    let _ ← blanks
    let _ ← literal ","
    let _ ← blanks
    let max ← optional (token .windowMax Token.digits)
    return .range min max

def windowExact : Reader Bounds :=
  Bounds.exact <$> token .windowExact Token.digits

/-- Reads a piece together with the text it was read from. -/
def spelled (reader : Reader α) : Reader (α × Lexeme) := fun cursor =>
  match reader cursor with
  | ⟨some (value, behind), trace⟩ =>
      let taken := cursor.rest.take (cursor.rest.length - behind.rest.length)
      ⟨some ((value, ⟨taken, cursor.offset, behind.offset⟩), behind), trace⟩
  | ⟨none, trace⟩ => ⟨none, trace⟩

def window : Reader (Checked Window) := do
  let (bounds, written) ← spelled <| rule .window do
    let _ ← literal "\x7b"
    let _ ← blanks
    let bounds ← windowRange.orElse windowExact
    let _ ← blanks
    let _ ← literal "\x7d"
    return bounds
  return checkedWindow written.content written.span bounds

end Windows

section Segments

/-- A predicate in brackets, perhaps marked as the target and followed by a window. -/
def segment (depth : Nat) : Reader (Checked Segment) := do
  let ((target, predicate, window), span) ← placed <| rule .segment do
    let target ← optional (token .target (Token.exactly "@"))
    let _ ← blanks
    let _ ← literal "["
    let _ ← blanks
    let predicate ← predicate depth depth
    let _ ← blanks
    let _ ← literal "]"
    let _ ← blanks
    let window ← optional window
    return (target.isSome, predicate, window)
  return do
    let predicate ← predicate
    match window with
    | some window => return ⟨target, predicate, some (← window), span⟩
    | none => return ⟨target, predicate, none, span⟩

def connectorRule : Connector → Rule
  | .descendant => .descendant
  | .child => .child
  | .ancestor => .ancestor
  | .beforeBrother => .beforeBrother
  | .afterBrother => .afterBrother

def connector : Reader Connector :=
  rule .connector <| firstOf <| Connector.all.map fun connector =>
    (fun _ => connector) <$>
      token (connectorRule connector) (Token.exactly connector.spelling)

def endOfInput : Reader Lexeme :=
  token .endOfInput fun source => if source.isEmpty then some ([], []) else none

/-- Segments with connectors between them, up to the end of the source. -/
def writtenSelector (depth : Nat) :
    Reader (Checked Segment × List (Connector × Checked Segment)) := do
  rule .selector do
    let _ ← blanks
    let first ← segment depth
    let _ ← blanks
    let others ← many do
      let connector ← connector
      let _ ← blanks
      let next ← segment depth
      return (connector, next)
    let _ ← blanks
    let _ ← endOfInput
    return (first, others)

/-- Extends a chain by segments in written order.  `targeted` tells whether a
segment of the chain is marked as the target, which only one may be. -/
def extendChecked (targeted : Bool) (chain : Chain) :
    List (Connector × Checked Segment) → Checked Chain
  | [] => .ok chain
  | (connector, segment) :: others => do
      let segment ← segment
      if targeted && segment.target then throw (.secondTarget segment.span)
      extendChecked (targeted || segment.target) (.link segment connector chain) others

/-- The chain of segments in written order.  The first one is walked to and not
from, so it has no use for a window. -/
def checkedChain (first : Checked Segment) (others : List (Connector × Checked Segment)) :
    Checked Chain := do
  let first ← first
  match first.window with
  | some window => throw (.windowOnFirst window first.span)
  | none => extendChecked first.target (.last first) others

end Segments

/-- What came of reading a whole source by the grammar alone. -/
def read (source : List Char) :
    Outcome (Checked Segment × List (Connector × Checked Segment)) :=
  writtenSelector (source.length + 1) (Cursor.start source)

/-- The error for a source that the grammar does not accept, from the failures met
while reading it. -/
def unexpectedIn (source : List Char) (trace : Trace) : SelectorError :=
  let attempts := trace.furthest
  .unexpected {
    offset := attempts.offset
    sourceLength := Text.byteLength source
    position := Text.positionAt source attempts.offset
    expected := attempts.expected }

end TreeSelector.Grammar

namespace TreeSelector.Chain

def parse (source : String) : Except SelectorError Chain :=
  let source := source.toList
  match Grammar.read source with
  | ⟨some ((first, others), _), _⟩ => Grammar.checkedChain first others
  | ⟨none, trace⟩ => .error (Grammar.unexpectedIn source trace)

end TreeSelector.Chain

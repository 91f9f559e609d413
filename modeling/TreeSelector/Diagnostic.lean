import TreeSelector.Grammar.Trace
import TreeSelector.Language.Printer
import TreeSelector.Text.Position

/-!
# Diagnostics

Why a text is no selector, or a selector is ill-typed.  Each cause carries what
is needed to point at it; the wording of messages, labels and help is derived
here and nowhere else.
-/

namespace TreeSelector

/-- Where the grammar gave up and what it could have gone on with. -/
structure Unexpected where
  offset : Nat
  sourceLength : Nat
  position : Text.Position
  expected : List Grammar.Rule
  deriving DecidableEq

/-- What is wrong with an offset window. -/
inductive WindowFault where
  | boundTooLarge
  | boundsReversed
  deriving DecidableEq

inductive SelectorError where
  | unexpected (fault : Unexpected)
  | invalidEscape (sequence : String) (span : Span)
  | invalidWindow (window : String) (fault : WindowFault) (span : Span)
  | unsupportedPattern (pattern : String) (span : Span)
  | windowOnFirst (window : Window) (span : Span)
  | secondTarget (span : Span)
  | integerTooLarge (digits : String) (span : Span)
  | notCallable (operand : Operand) (span : Span)
  | unknownName (name : String) (span : Span)
  | unknownFunction (name : String) (span : Span)
  | functionArity (name : String) (arity : Nat) (span : Span)
  | unknownMember (member owner : String) (span : Span)
  | unknownMethod (method owner : String) (span : Span)
  | methodArity (method owner : String) (arity : Nat) (span : Span)
  | misusedRelation (relation : Relation) (comparison : Comparison) (span : Span)
  | incomparable (left right : String) (span : Span)
  | misfitArgument (call argument : Operand) (found : String) (span : Span)
  deriving DecidableEq

/-- Whether an error is found by reading a selector or by checking its types. -/
inductive SelectorError.Kind where
  | reading
  | typing
  deriving DecidableEq

namespace WindowFault

def message : WindowFault → String
  | boundTooLarge => "offset out of range"
  | boundsReversed => "lower bound exceeds upper bound"

end WindowFault

namespace Unexpected

/-- The source was read to its end. -/
def atEnd (fault : Unexpected) : Bool := fault.sourceLength ≤ fault.offset

/-- The byte that a diagnostic marks: the offending one, or the last one where
the source ends too early.  An empty source has none. -/
def span (fault : Unexpected) : Span :=
  if fault.offset < fault.sourceLength then ⟨fault.offset, fault.offset + 1⟩
  else if 0 < fault.offset then ⟨fault.offset - 1, fault.offset⟩
  else ⟨0, 0⟩

/-- Drops every item that repeats the one before it. -/
def withoutRepeats : List String → List String
  | [] => []
  | [item] => [item]
  | first :: second :: items =>
      if first = second then withoutRepeats (second :: items)
      else first :: withoutRepeats (second :: items)

/-- The titles of the expected rules; at most three are written out. -/
def label (fault : Unexpected) : String :=
  match withoutRepeats (fault.expected.map Grammar.Rule.title) with
  | [] => "Unexpected input"
  | [title] => "Expected " ++ title
  | titles =>
      if titles.length ≤ 3 then "Expected one of: " ++ ", ".intercalate titles
      else "Expected one of: " ++ ", ".intercalate (titles.take 3) ++ ", ..."

/-- Advice for the most telling of the expected rules. -/
def help (fault : Unexpected) : Option String :=
  let expects (rule : Grammar.Rule) : Bool := fault.expected.contains rule
  if expects .relation then
    some "Each comparison needs an operator, like: text=\"ok\""
  else if expects .operand then
    if fault.atEnd then
      some "Try adding a value after the operator, like: id=\"btn\""
    else some "Expected a value here (a string, integer, boolean, null or name)"
  else if expects .segment then
    some "Segments are written in brackets, like: [clickable=true]"
  else if expects .connector || expects .endOfInput then
    some "Unexpected input. Check for unbalanced brackets or quotes."
  else none

end Unexpected

namespace SelectorError

def kind : SelectorError → Kind
  | unexpected _ | invalidEscape _ _ | invalidWindow _ _ _ | unsupportedPattern _ _
  | windowOnFirst _ _ | secondTarget _ | integerTooLarge _ _ | notCallable _ _ => .reading
  | _ => .typing

/-- The one-line text of an error. -/
def message : SelectorError → String
  | unexpected fault =>
      "Syntax error at line " ++ Text.decimal fault.position.line ++
        ", column " ++ Text.decimal fault.position.column
  | invalidEscape sequence _ => "Invalid escape sequence '" ++ sequence ++ "'"
  | invalidWindow window _ _ => "Invalid offset range " ++ window
  | unsupportedPattern pattern _ => "Unsupported pattern " ++ pattern
  | windowOnFirst window _ =>
      "Malformed selector: offset window " ++ window.render ++
        " has no connector to bound"
  | secondTarget _ => "Malformed selector: only one segment may be marked with @"
  | integerTooLarge digits _ =>
      "Malformed selector: integer " ++ digits ++ " is out of range"
  | notCallable operand _ =>
      "Malformed selector: " ++ operand.render ++ " cannot be called"
  | unknownName name _ => "Unknown identifier: " ++ name
  | unknownFunction name _ => "Unknown method: " ++ name
  | functionArity name arity _ =>
      "Method " ++ name ++ " does not take " ++ Text.decimal arity ++ " argument(s)"
  | unknownMember member owner _ => "Unknown member " ++ member ++ " on " ++ owner
  | unknownMethod method owner _ => "Unknown method " ++ method ++ " on " ++ owner
  | methodArity method owner arity _ =>
      "Method " ++ method ++ " on " ++ owner ++ " does not take " ++
        Text.decimal arity ++ " argument(s)"
  | misusedRelation relation comparison _ =>
      "Operator " ++ relation.spelling ++ " cannot be used in " ++ comparison.render
  | incomparable left right _ => "Cannot compare " ++ left ++ " with " ++ right
  | misfitArgument call argument found _ =>
      "Argument " ++ argument.render ++ " of " ++ call.render ++ " has type " ++ found

def code : SelectorError → String
  | unexpected _ => "nodesel::syntax"
  | invalidEscape _ _ => "nodesel::invalid_escape"
  | invalidWindow _ _ _ => "nodesel::invalid_offset_range"
  | unsupportedPattern _ _ => "nodesel::unsupported_pattern"
  | windowOnFirst _ _ | secondTarget _ | integerTooLarge _ _ | notCallable _ _ =>
      "nodesel::malformed"
  | unknownName _ _ => "nodesel::unknown_identifier"
  | unknownFunction _ _ => "nodesel::unknown_identifier_method"
  | functionArity _ _ _ => "nodesel::unknown_identifier_method_params"
  | unknownMember _ _ _ => "nodesel::unknown_member"
  | unknownMethod _ _ _ => "nodesel::unknown_member_method"
  | methodArity _ _ _ _ => "nodesel::unknown_member_method_params"
  | misusedRelation _ _ _ => "nodesel::mismatch_operator_type"
  | incomparable _ _ _ => "nodesel::mismatch_expression_type"
  | misfitArgument _ _ _ _ => "nodesel::mismatch_param_type"

def help : SelectorError → Option String
  | unexpected fault => fault.help
  | invalidEscape _ _ =>
      some "Valid escape sequences: \\\\, \\\", \\', \\n, \\r, \\t, \\b, \\xHH, \\uHHHH"
  | invalidWindow _ _ _ =>
      some "Offsets are non-negative and the lower bound may not exceed the upper one"
  | unsupportedPattern _ _ =>
      some "Only (?is)prefix.*, (?is).*infix.* and (?is).*suffix are supported"
  | misusedRelation _ _ _ =>
      some ("String operators need strings on both sides, <, <=, > and >= need ints, " ++
        "~= needs a string literal")
  | _ => none

/-- The text beside the marked piece of source. -/
def label : SelectorError → String
  | unexpected fault => fault.label
  | invalidEscape _ _ => "invalid escape"
  | invalidWindow _ fault _ => fault.message
  | unsupportedPattern _ _ => "not a prefix, infix or suffix pattern"
  | windowOnFirst _ _ | secondTarget _ | integerTooLarge _ _ | notCallable _ _ => "here"
  | unknownName _ _ => "unknown identifier"
  | unknownFunction _ _ | unknownMethod _ _ _ => "unknown method"
  | functionArity _ _ _ | methodArity _ _ _ _ => "wrong number of arguments"
  | unknownMember _ _ _ => "unknown member"
  | misusedRelation _ _ _ => "operand types do not fit this operator"
  | incomparable left right _ => left ++ " compared with " ++ right
  | misfitArgument _ _ _ _ => "argument of the wrong type"

def span : SelectorError → Span
  | unexpected fault => fault.span
  | invalidEscape _ span | invalidWindow _ _ span | unsupportedPattern _ span
  | windowOnFirst _ span | secondTarget span | integerTooLarge _ span
  | notCallable _ span | unknownName _ span | unknownFunction _ span
  | functionArity _ _ span | unknownMember _ _ span | unknownMethod _ _ span
  | methodArity _ _ _ span | misusedRelation _ _ span | incomparable _ _ span
  | misfitArgument _ _ _ span => span

end SelectorError

end TreeSelector

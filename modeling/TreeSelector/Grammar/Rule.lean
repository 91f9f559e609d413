/-!
# Rules of the selector grammar

The named rules whose attempts are remembered while a selector is read, in the
order in which a diagnostic lists them, and what a diagnostic calls them.
-/

namespace TreeSelector.Grammar

/-- A rule of the grammar that a syntax error can name. -/
inductive Rule where
  | endOfInput
  | selector
  | connector | descendant | child | ancestor | beforeBrother | afterBrother
  | segment | target
  | window | windowRange | windowExact | windowMin | windowMax
  | predicate | and | or
  | comparison | relation
  | operand | member | call
  | null | boolean | integer | identifier | memberName
  | text
  deriving DecidableEq, Repr, Inhabited

namespace Rule

/-- All rules, in listing order. -/
def all : List Rule :=
  [endOfInput, selector,
    connector, descendant, child, ancestor, beforeBrother, afterBrother,
    segment, target,
    window, windowRange, windowExact, windowMin, windowMax,
    predicate, and, or,
    comparison, relation,
    operand, member, call,
    null, boolean, integer, identifier, memberName,
    text]

/-- What a diagnostic calls a rule. -/
def title : Rule → String
  | selector => "selector"
  | segment => "segment"
  | connector => "connector (<<, <, >, +, -)"
  | target => "@"
  | window => "offset window"
  | windowRange | windowExact | windowMin | windowMax => "offset"
  | predicate => "expression"
  | and => "&&"
  | or => "||"
  | comparison => "comparison"
  | relation => "comparison operator"
  | operand => "value"
  | member => "member access"
  | call => "call"
  | null => "null"
  | boolean => "boolean"
  | integer => "integer"
  | identifier | memberName => "identifier"
  | text => "string"
  | endOfInput => "end of input"
  | descendant | child | ancestor | beforeBrother | afterBrother => "input"

end Rule

end TreeSelector.Grammar

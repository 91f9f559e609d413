/-!
# Operators

The operators that compare two operands, and the connectors that lead from one
segment of a selector to the one written before it.
-/

namespace TreeSelector

/-- A comparison between two operands. -/
inductive Relation where
  | equal | notEqual
  | beginsWith | notBeginsWith
  | contains | notContains
  | endsWith | notEndsWith
  | resembles | notResembles
  | less | lessEqual | more | moreEqual
  deriving DecidableEq, Repr, Inhabited

namespace Relation

def spelling : Relation → String
  | equal => "="
  | notEqual => "!="
  | beginsWith => "^="
  | notBeginsWith => "!^="
  | contains => "*="
  | notContains => "!*="
  | endsWith => "$="
  | notEndsWith => "!$="
  | resembles => "~="
  | notResembles => "!~="
  | less => "<"
  | lessEqual => "<="
  | more => ">"
  | moreEqual => ">="

/-- All relations, none after one whose spelling begins its own. -/
def all : List Relation :=
  [notBeginsWith, notContains, notEndsWith, notResembles, notEqual,
    beginsWith, contains, endsWith, resembles, moreEqual, lessEqual, more, less, equal]

def ofSpelling? (spelling : String) : Option Relation :=
  all.find? fun relation => relation.spelling == spelling

theorem mem_all (relation : Relation) : relation ∈ all := by
  cases relation <;> decide

theorem ofSpelling?_spelling (relation : Relation) :
    ofSpelling? relation.spelling = some relation := by
  cases relation <;> decide +kernel

/-- The two relations whose right side is a pattern. -/
def isPattern : Relation → Bool
  | resembles | notResembles => true
  | _ => false

/-- The relations that hold between texts only. -/
def isTextual : Relation → Bool
  | beginsWith | notBeginsWith | contains | notContains | endsWith | notEndsWith
  | resembles | notResembles => true
  | _ => false

/-- The relations that hold between integers only. -/
def isOrdering : Relation → Bool
  | less | lessEqual | more | moreEqual => true
  | _ => false

end Relation

/-- A way to get from a node to candidate nodes. -/
inductive Connector where
  | beforeBrother | afterBrother | ancestor | child | descendant
  deriving DecidableEq, Repr, Inhabited

namespace Connector

def spelling : Connector → String
  | beforeBrother => "+"
  | afterBrother => "-"
  | ancestor => ">"
  | child => "<"
  | descendant => "<<"

def all : List Connector :=
  [descendant, child, ancestor, beforeBrother, afterBrother]

def ofSpelling? (spelling : String) : Option Connector :=
  all.find? fun connector => connector.spelling == spelling

theorem mem_all (connector : Connector) : connector ∈ all := by
  cases connector <;> decide

theorem ofSpelling?_spelling (connector : Connector) :
    ofSpelling? connector.spelling = some connector := by
  cases connector <;> decide +kernel

end Connector

end TreeSelector

/-!
# Names

The attributes and methods a selector can mention form a closed vocabulary, the
symbols.  Any other name is kept as written.
-/

namespace TreeSelector

/-- An attribute or method of the closed vocabulary. -/
inductive Symbol where
  | id | vid | className | text | desc
  | clickable | focusable | checkable | checked | editable | longClickable | visibleToUser
  | left | top | right | bottom | width | height
  | childCount | index | depth | parent
  | prev | current | length | getChild | getPrev
  | toInt | toText | or | and | not | ifElse
  | plus | minus | times | div | rem
  | more | moreEqual | less | lessEqual
  | get | charAt | substring | indexOf | equal | notEqual
  deriving DecidableEq, Repr, Inhabited

namespace Symbol

def spelling : Symbol → String
  | id => "id"
  | vid => "vid"
  | className => "name"
  | text => "text"
  | desc => "desc"
  | clickable => "clickable"
  | focusable => "focusable"
  | checkable => "checkable"
  | checked => "checked"
  | editable => "editable"
  | longClickable => "longClickable"
  | visibleToUser => "visibleToUser"
  | left => "left"
  | top => "top"
  | right => "right"
  | bottom => "bottom"
  | width => "width"
  | height => "height"
  | childCount => "childCount"
  | index => "index"
  | depth => "depth"
  | parent => "parent"
  | prev => "prev"
  | current => "current"
  | length => "length"
  | getChild => "getChild"
  | getPrev => "getPrev"
  | toInt => "toInt"
  | toText => "toString"
  | or => "or"
  | and => "and"
  | not => "not"
  | ifElse => "ifElse"
  | plus => "plus"
  | minus => "minus"
  | times => "times"
  | div => "div"
  | rem => "rem"
  | more => "more"
  | moreEqual => "moreEqual"
  | less => "less"
  | lessEqual => "lessEqual"
  | get => "get"
  | charAt => "at"
  | substring => "substring"
  | indexOf => "indexOf"
  | equal => "equal"
  | notEqual => "notEqual"

def all : List Symbol :=
  [id, vid, className, text, desc,
    clickable, focusable, checkable, checked, editable, longClickable, visibleToUser,
    left, top, right, bottom, width, height,
    childCount, index, depth, parent,
    prev, current, length, getChild, getPrev,
    toInt, toText, or, and, not, ifElse,
    plus, minus, times, div, rem,
    more, moreEqual, less, lessEqual,
    get, charAt, substring, indexOf, equal, notEqual]

def ofSpelling? (name : String) : Option Symbol :=
  all.find? fun symbol => symbol.spelling == name

theorem mem_all (symbol : Symbol) : symbol ∈ all := by
  cases symbol <;> decide

theorem ofSpelling?_spelling (symbol : Symbol) : ofSpelling? symbol.spelling = some symbol := by
  cases symbol <;> decide +kernel

theorem spelling_of_ofSpelling? {name : String} {symbol : Symbol}
    (found : ofSpelling? name = some symbol) : symbol.spelling = name := by
  simpa using List.find?_some found

end Symbol

/-- A name as it stands in a selector. -/
inductive Name where
  | known (symbol : Symbol)
  | unknown (spelling : String)
  deriving DecidableEq, Repr, Inhabited

namespace Name

def ofSpelling (spelling : String) : Name :=
  match Symbol.ofSpelling? spelling with
  | some symbol => known symbol
  | none => unknown spelling

def spelling : Name → String
  | known symbol => symbol.spelling
  | unknown spelling => spelling

/-- The symbol a name stands for, if it belongs to the vocabulary. -/
def symbol? : Name → Option Symbol
  | known symbol => some symbol
  | unknown _ => none

theorem spelling_ofSpelling (spelling : String) : (ofSpelling spelling).spelling = spelling := by
  unfold ofSpelling
  split
  · rename_i symbol found
    exact Symbol.spelling_of_ofSpelling? found
  · rfl

end Name

end TreeSelector

import TreeSelector.Language.Name

/-!
# The schema

The kinds of value a selector can speak about, and the attributes and methods of
each.  Bare names are looked up on the `global` type, which has whatever a
context has and two comparison functions.
-/

namespace TreeSelector

inductive Ty where
  | boolean | int | string | node | context | global
  deriving DecidableEq, Repr, Inhabited

structure Property where
  name : Symbol
  type : Ty
  deriving DecidableEq, Repr

/-- A method: its result type and the types of its parameters. -/
structure Method where
  name : Symbol
  result : Ty
  parameters : List Ty
  deriving DecidableEq, Repr

namespace Ty

def title : Ty → String
  | boolean => "boolean"
  | int => "int"
  | string => "string"
  | node => "node"
  | context => "context"
  | global => "global"

/-- The types that values have. -/
def valueTypes : List Ty := [boolean, int, string, node, context]

/-- One overload for each type, with all parameters of that type. -/
def overloads (name : Symbol) (arity : Nat) (result : Ty → Ty) : List Method :=
  valueTypes.map fun type => ⟨name, result type, List.replicate arity type⟩

def nodeProperties : List Property :=
  [⟨.id, string⟩, ⟨.vid, string⟩, ⟨.className, string⟩, ⟨.text, string⟩,
    ⟨.desc, string⟩, ⟨.clickable, boolean⟩, ⟨.focusable, boolean⟩,
    ⟨.checkable, boolean⟩, ⟨.checked, boolean⟩, ⟨.editable, boolean⟩,
    ⟨.longClickable, boolean⟩, ⟨.visibleToUser, boolean⟩, ⟨.left, int⟩, ⟨.top, int⟩,
    ⟨.right, int⟩, ⟨.bottom, int⟩, ⟨.width, int⟩, ⟨.height, int⟩, ⟨.childCount, int⟩,
    ⟨.index, int⟩, ⟨.depth, int⟩, ⟨.parent, node⟩]

def nodeMethods : List Method := [⟨.getChild, node, [int]⟩]

def contextProperties : List Property :=
  nodeProperties ++ [⟨.prev, context⟩, ⟨.current, node⟩]

def contextMethods : List Method := nodeMethods ++ [⟨.getPrev, context, [int]⟩]

/-- The attributes of a type, in listing order. -/
def properties : Ty → List Property
  | boolean | int => []
  | string => [⟨.length, int⟩]
  | node => nodeProperties
  | context | global => contextProperties

/-- The methods of a type, in listing order. -/
def methods : Ty → List Method
  | boolean =>
      [⟨.toInt, int, []⟩, ⟨.or, boolean, [boolean]⟩, ⟨.and, boolean, [boolean]⟩,
        ⟨.not, boolean, []⟩] ++ overloads .ifElse 2 id
  | int =>
      [⟨.toText, string, []⟩, ⟨.toText, string, [int]⟩, ⟨.plus, int, [int]⟩,
        ⟨.minus, int, [int]⟩, ⟨.times, int, [int]⟩, ⟨.div, int, [int]⟩,
        ⟨.rem, int, [int]⟩, ⟨.more, boolean, [int]⟩, ⟨.moreEqual, boolean, [int]⟩,
        ⟨.less, boolean, [int]⟩, ⟨.lessEqual, boolean, [int]⟩]
  | string =>
      [⟨.get, string, [int]⟩, ⟨.charAt, string, [int]⟩, ⟨.substring, string, [int]⟩,
        ⟨.substring, string, [int, int]⟩, ⟨.toInt, int, []⟩, ⟨.toInt, int, [int]⟩,
        ⟨.indexOf, int, [string]⟩, ⟨.indexOf, int, [string, int]⟩]
  | node => nodeMethods
  | context => contextMethods
  | global =>
      contextMethods ++ overloads .equal 2 (fun _ => boolean) ++
        overloads .notEqual 2 (fun _ => boolean)

def property? (type : Ty) (name : Symbol) : Option Ty :=
  (type.properties.find? (·.name = name)).map (·.type)

/-- The overloads of a method, in listing order. -/
def methodsNamed (type : Ty) (name : Symbol) : List Method :=
  type.methods.filter (·.name = name)

end Ty

end TreeSelector

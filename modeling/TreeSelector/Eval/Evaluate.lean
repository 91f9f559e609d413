import TreeSelector.Eval.Method
import TreeSelector.Language.Predicate
import TreeSelector.Reading.View

/-!
# Evaluation

The value of an operand and the truth of a predicate, in a context of nodes of a
tree that is read through a view.  Nothing is read that the result does not need:
`and` and `or` stop at the side that decides, and so do the methods of that name
and `ifElse`.
-/

namespace TreeSelector

namespace View

/-- What a name tells about a node. -/
def nodeAttribute (view : View) (node : NodeId) (name : Symbol) : Reading Value :=
  match name with
  | .index => return .orNull Method.count (← view.index node)
  | .depth => return Method.count (← view.depth node)
  | .parent => return .orNull .node (← view.parent node)
  | .childCount => return Method.count (← view.childCount node)
  | name =>
      match Attribute.ofSymbol? name with
      | some attr => return .ofAttribute (← view.attributeValue node attr)
      | none => return .null

/-- What a name tells about a value. -/
def valueAttribute (view : View) (target : Value) (name : Symbol) : Reading Value :=
  match target with
  | .context context =>
      match name with
      | .prev => return .orNull .context (context.previous? 0)
      | .current => return .node context.current
      | name => view.nodeAttribute context.current name
  | .node node => view.nodeAttribute node name
  | plain => return Method.plainAttribute plain name

/-- A position that may not be negative. -/
def position? (value : Int32) : Option Nat :=
  if value < 0 then none else some value.toInt.toNat

def childAt (view : View) (node : NodeId) (position : Int32) : Reading Value :=
  match position? position with
  | some index => return .orNull .node (← view.child node index)
  | none => return .null

/-- The result of a method for arguments none of which is null. -/
def invoke (view : View) (target : Value) (method : Symbol) (arguments : List Value) :
    Reading Value :=
  match target, method, arguments with
  | .node node, .getChild, [.int position] => view.childAt node position
  | .context context, .getChild, [.int position] => view.childAt context.current position
  | .context context, .getPrev, [.int steps] =>
      return .orNull .context ((position? steps).bind context.previous?)
  | .node _, _, _ | .context _, _, _ => return .null
  | plain, method, arguments => return Method.ofPlain plain method arguments

end View

namespace Operand

/-- The values of some arguments; none as soon as one of them is null. -/
def allValues : List (Reading Value) → Reading (Option (List Value))
  | [] => return some []
  | argument :: arguments => do
      let value ← argument
      if value.isNull then return none
      match ← allValues arguments with
      | some values => return some (value :: values)
      | none => return none

/-- Calls a method with its arguments, unless one of them is null. -/
def invokeWith (view : View) (target : Value) (method : Symbol)
    (arguments : List (Reading Value)) : Reading Value := do
  match ← allValues arguments with
  | some values => view.invoke target method values
  | none => return .null

/-- A truth value as it stands, and null in place of anything else. -/
def onlyBoolean : Value → Value
  | .boolean value => .boolean value
  | _ => .null

/-- The result of a function for arguments that have not been read. -/
def applyFunction (view : View) (context : Context) (function : Symbol)
    (arguments : List (Reading Value)) : Reading Value :=
  match arguments, function with
  | [left, right], .equal => do
      let left ← left
      let right ← right
      return .boolean (left = right)
  | [left, right], .notEqual => do
      let left ← left
      let right ← right
      return .boolean (left ≠ right)
  | arguments, function => invokeWith view (.context context) function arguments

/-- The result of a method of a value for arguments that have not been read. -/
def applyMethod (view : View) (target : Value) (method : Symbol)
    (arguments : List (Reading Value)) : Reading Value :=
  match arguments, target, method with
  | [_], .boolean true, .or => return .boolean true
  | [_], .boolean false, .and => return .boolean false
  | [other], .boolean false, .or | [other], .boolean true, .and =>
      return onlyBoolean (← other)
  | [yes, _], .boolean true, .ifElse => yes
  | [_, no], .boolean false, .ifElse => no
  | arguments, target, method => invokeWith view target method arguments

mutual

def eval (view : View) (context : Context) : Operand → Reading Value
  | null _ => return .null
  | boolean value _ => return .boolean value
  | integer value _ => return .int value
  | text value _ _ => return .string value
  | reference name _ =>
      match name.symbol? with
      | some name => view.valueAttribute (.context context) name
      | none => return .null
  | member object property _ => do
      let object ← object.eval view context
      match property.symbol? with
      | some property =>
          if object.isNull then return .null else view.valueAttribute object property
      | none => return .null
  | call function _ arguments _ =>
      match function.symbol? with
      | some function => applyFunction view context function (evalEach view context arguments)
      | none => return .null
  | invoke object method _ arguments _ => do
      let target ← object.eval view context
      match method.symbol? with
      | some method =>
          if target.isNull then return .null
          else applyMethod view target method (evalEach view context arguments)
      | none => return .null

def evalEach (view : View) (context : Context) : List Operand → List (Reading Value)
  | [] => []
  | operand :: operands => operand.eval view context :: evalEach view context operands

end

/-- The pattern of a string literal on the right of a pattern relation. -/
def pattern? : Operand → Option Pattern
  | text _ pattern _ => pattern
  | _ => none

end Operand

namespace Comparison

/-- Whether a value resembles a pattern or, if so asked, does not. -/
def resembles (wanted : Bool) (value : Value) (pattern : Option Pattern) : Bool :=
  match value, pattern with
  | .string text, some pattern => pattern.accepts text == wanted
  | _, _ => false

/-- Whether a comparison holds.  The right side of a pattern relation is not
evaluated. -/
def holds (view : View) (context : Context) (comparison : Comparison) : Reading Bool := do
  let left ← comparison.left.eval view context
  match comparison.relation with
  | .resembles => return resembles true left comparison.right.pattern?
  | .notResembles => return resembles false left comparison.right.pattern?
  | relation =>
      let right ← comparison.right.eval view context
      return Value.compare relation left right

end Comparison

namespace Predicate

def holds (view : View) (context : Context) : Predicate → Reading Bool
  | compare comparison => comparison.holds view context
  | and left right => do
      if ← left.holds view context then right.holds view context else return false
  | or left right => do
      if ← left.holds view context then return true else right.holds view context

end Predicate

end TreeSelector

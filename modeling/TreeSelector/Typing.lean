import TreeSelector.Diagnostic
import TreeSelector.Language.Schema

/-!
# Checking the types of a selector

Comparisons are checked from the head of the chain on and in written order inside
a segment; the first problem is reported.  A null literal has no type of its own
and fits wherever a value is asked for, though it has no members.
-/

namespace TreeSelector

/-- A type, none for a null literal, or the first problem with an operand. -/
abbrev Typed : Type := Except SelectorError (Option Ty)

namespace Typing

/-- Whether an operand is not a literal that rules the wanted type out. -/
def mayBeText : Operand → Bool
  | .text _ _ _ => true
  | operand => !operand.isLiteral

/-- Whether an operand is not a literal that rules an integer out. -/
def mayBeInteger : Operand → Bool
  | .integer _ _ => true
  | operand => !operand.isLiteral

/-- Whether an operand is a string literal that was read as a pattern. -/
def isPatternLiteral : Operand → Bool
  | .text _ pattern _ => pattern.isSome
  | _ => false

/-- Whether the literals among the operands suit the relation, decided before any
name is looked up. -/
def literalsSuit (comparison : Comparison) : Bool :=
  match comparison.relation with
  | .equal | .notEqual => true
  | .resembles | .notResembles =>
      mayBeText comparison.left && isPatternLiteral comparison.right
  | relation =>
      if relation.isTextual then mayBeText comparison.left && mayBeText comparison.right
      else mayBeInteger comparison.left && mayBeInteger comparison.right

/-- The type that members of an operand are looked up on. -/
def ownerOf (typed : Typed) (member : Name) (span : Span) : Except SelectorError Ty := do
  match ← typed with
  | some type => return type
  | none => throw (.unknownMember member.spelling "null" span)

/-- Whether arguments fit a method; a null literal fits every parameter. -/
def checkArguments (call : Operand) : List Ty → List (Operand × Typed) →
    Except SelectorError Unit
  | parameter :: parameters, (argument, typed) :: arguments => do
      match ← typed with
      | some found =>
          if found ≠ parameter then
            throw (.misfitArgument call argument found.title argument.span)
      | none => pure ()
      checkArguments call parameters arguments
  | _, _ => return ()

/-- The result type of the first overload that the arguments fit, else the problem
with the last one. -/
def chooseOverload (call : Operand) (arguments : List (Operand × Typed)) :
    Method → List Method → Except SelectorError Ty
  | method, [] => do
      checkArguments call method.parameters arguments
      return method.result
  | method, next :: methods =>
      match checkArguments call method.parameters arguments with
      | .ok () => .ok method.result
      | .error _ => chooseOverload call arguments next methods

/-- The result type of a call of one of some overloads. -/
def callType (call : Operand) (named : List Method) (arguments : List (Operand × Typed))
    (unknown wrongArity : SelectorError) : Except SelectorError Ty :=
  if named.isEmpty then .error unknown
  else
    match named.filter (·.parameters.length = arguments.length) with
    | [] => .error wrongArity
    | method :: methods => chooseOverload call arguments method methods

/-- The overloads a name has on a type. -/
def methodsOf (type : Ty) (name : Name) : List Method :=
  match name.symbol? with
  | some symbol => type.methodsNamed symbol
  | none => []

def propertyOf? (type : Ty) (name : Name) : Option Ty :=
  name.symbol?.bind type.property?

/-- A result, or an error where there is none. -/
def orError (error : SelectorError) : Option Ty → Except SelectorError Ty
  | some type => .ok type
  | none => .error error

mutual

def typeOf : Operand → Typed
  | .null _ => .ok none
  | .boolean _ _ => .ok (some .boolean)
  | .integer _ _ => .ok (some .int)
  | .text _ _ _ => .ok (some .string)
  | .reference name span =>
      some <$> orError (.unknownName name.spelling span) (propertyOf? .global name)
  | .member object property span => do
      let owner ← ownerOf (typeOf object) property span
      some <$> orError (.unknownMember property.spelling owner.title span)
        (propertyOf? owner property)
  | .call function functionSpan arguments span =>
      some <$> callType (.call function functionSpan arguments span)
        (methodsOf .global function) (typesOf arguments)
        (.unknownFunction function.spelling functionSpan)
        (.functionArity function.spelling arguments.length span)
  | .invoke object method methodSpan arguments span => do
      let owner ← ownerOf (typeOf object) method methodSpan
      some <$> callType (.invoke object method methodSpan arguments span)
        (methodsOf owner method) (typesOf arguments)
        (.unknownMethod method.spelling owner.title methodSpan)
        (.methodArity method.spelling owner.title arguments.length span)

def typesOf : List Operand → List (Operand × Typed)
  | [] => []
  | operand :: operands => (operand, typeOf operand) :: typesOf operands

end

/-- The type a relation asks of both sides. -/
def requiredType? (relation : Relation) : Option Ty :=
  if relation.isTextual then some .string
  else if relation.isOrdering then some .int
  else none

def checkComparison (comparison : Comparison) : Except SelectorError Unit := do
  let misused := SelectorError.misusedRelation comparison.relation comparison comparison.span
  if !literalsSuit comparison then throw misused
  let left ← typeOf comparison.left
  let right ← typeOf comparison.right
  match left, right with
  | some left, some right =>
      if left ≠ right then throw (.incomparable left.title right.title comparison.span)
  | _, _ => pure ()
  match requiredType? comparison.relation with
  | some required =>
      if left.any (· ≠ required) || right.any (· ≠ required) then throw misused
  | none => pure ()

def checkAll : List Comparison → Except SelectorError Unit
  | [] => .ok ()
  | comparison :: comparisons => do
      checkComparison comparison
      checkAll comparisons

end Typing

namespace Chain

/-- Every comparison of a chain, in the order of checking. -/
def comparisons (chain : Chain) : List Comparison :=
  chain.segments.flatMap (·.predicate.comparisons)

def checkTypes (chain : Chain) : Except SelectorError Unit :=
  Typing.checkAll chain.comparisons

end Chain

end TreeSelector

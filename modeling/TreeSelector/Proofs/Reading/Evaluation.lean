import Mathlib.Data.List.Forall2
import TreeSelector.Proofs.Reading.Scope

/-!
# What evaluation asks of a view

A relation between readings that is kept when readings are composed holds of what is
evaluated through two views as soon as it holds of the questions that evaluation puts to
them.  Which questions these are is told by the names that occur in a predicate.  There is
one lemma for each function, with its recursion.
-/

namespace TreeSelector

/-- A relation between readings that is kept when readings are composed. -/
structure Reading.Congruence where
  Relates : {α : Type} → Reading α → Reading α → Prop
  pure : ∀ {α : Type} (value : α), Relates (Pure.pure value) (Pure.pure value)
  bind : ∀ {α β : Type} {reading reference : Reading α} {next next' : α → Reading β},
    Relates reading reference → (∀ value, Relates (next value) (next' value)) →
      Relates (reading >>= next) (reference >>= next')

namespace Reading.Congruence.Relates

variable {alike : Congruence} {α β : Type}

theorem pure (value : α) : alike.Relates (Pure.pure value) (Pure.pure value) :=
  alike.pure value

theorem bind {reading reference : Reading α} {next next' : α → Reading β}
    (first : alike.Relates reading reference)
    (second : ∀ value, alike.Relates (next value) (next' value)) :
    alike.Relates (reading >>= next) (reference >>= next') :=
  alike.bind first second

theorem map {reading reference : Reading α} (change : α → β)
    (first : alike.Relates reading reference) :
    alike.Relates (do return change (← reading)) (do return change (← reference)) :=
  first.bind fun value => pure (change value)

theorem ite {condition : Prop} [Decidable condition] {yes no yes' no' : Reading α}
    (first : alike.Relates yes yes') (second : alike.Relates no no') :
    alike.Relates (if condition then yes else no) (if condition then yes' else no') := by
  split
  · exact first
  · exact second

theorem findPosition {test test' : Nat → Reading Bool}
    (tests : ∀ position, alike.Relates (test position) (test' position))
    (position count : Nat) :
    alike.Relates (Reading.findPosition test position count)
      (Reading.findPosition test' position count) := by
  induction count generalizing position with
  | zero => exact .pure none
  | succ count hypothesis =>
      refine (tests position).bind fun found => ?_
      cases found with
      | false => exact hypothesis (position + 1)
      | true => exact .pure (some position)

section Lists

variable {test test' : NodeId → Reading (Option α)}

theorem searchAmong (tests : ∀ node, alike.Relates (test node) (test' node))
    (nodes : List NodeId) :
    alike.Relates (View.searchAmong test nodes) (View.searchAmong test' nodes) := by
  induction nodes with
  | nil => exact .pure none
  | cons node nodes hypothesis =>
      refine (tests node).bind fun answer => ?_
      cases answer with
      | none => exact hypothesis
      | some answer => exact .pure _

theorem collectAmong (tests : ∀ node, alike.Relates (test node) (test' node))
    (nodes : List NodeId) :
    alike.Relates (View.collectAmong test nodes) (View.collectAmong test' nodes) := by
  induction nodes with
  | nil => exact .pure []
  | cons node nodes hypothesis =>
      refine (tests node).bind fun answer => ?_
      cases answer with
      | none => exact hypothesis
      | some answer => exact hypothesis.map _

end Lists

end Reading.Congruence.Relates

/-- Two views whose answers to what evaluation asks are related, as far as a scope goes. -/
structure View.RelatesWithin (alike : Reading.Congruence) (scope : Scope)
    (view reference : View) : Prop where
  parent : scope.upward = true → ∀ node,
    alike.Relates (view.parent node) (reference.parent node)
  child : scope.far = true → ∀ node index,
    alike.Relates (view.child node index) (reference.child node index)
  childCount : ∀ node, alike.Relates (view.childCount node) (reference.childCount node)
  index : scope.upward = true → ∀ node,
    alike.Relates (view.index node) (reference.index node)
  depth : scope.upward = true → ∀ node,
    alike.Relates (view.depth node) (reference.depth node)
  attributeValue : ∀ node attr,
    alike.Relates (view.attributeValue node attr) (reference.attributeValue node attr)

namespace View.RelatesWithin

variable {alike : Reading.Congruence} {scope : Scope} {view reference : View}

theorem nodeAttribute (relates : view.RelatesWithin alike scope reference) (node : NodeId)
    {name : Symbol} (permitted : scope.permits name = true) :
    alike.Relates (view.nodeAttribute node name) (reference.nodeAttribute node name) := by
  unfold View.nodeAttribute
  split
  · exact (relates.index permitted node).map _
  · exact (relates.depth permitted node).map _
  · exact (relates.parent permitted node).map _
  · exact (relates.childCount node).map _
  · split
    · exact (relates.attributeValue node _).map _
    · exact .pure _

theorem valueAttribute (relates : view.RelatesWithin alike scope reference) (target : Value)
    {name : Symbol} (permitted : scope.permits name = true) :
    alike.Relates (view.valueAttribute target name)
      (reference.valueAttribute target name) := by
  unfold View.valueAttribute
  split
  · split
    · exact .pure _
    · exact .pure _
    · exact relates.nodeAttribute _ permitted
  · exact relates.nodeAttribute _ permitted
  · exact .pure _

theorem childAt (relates : view.RelatesWithin alike scope reference) (far : scope.far = true)
    (node : NodeId) (position : Int32) :
    alike.Relates (view.childAt node position) (reference.childAt node position) := by
  unfold View.childAt
  split
  · exact (relates.child far node _).map _
  · exact .pure _

theorem invoke (relates : view.RelatesWithin alike scope reference) (target : Value)
    {method : Symbol} (permitted : scope.permits method = true) (arguments : List Value) :
    alike.Relates (view.invoke target method arguments)
      (reference.invoke target method arguments) := by
  unfold View.invoke
  split
  · exact relates.childAt permitted _ _
  · exact relates.childAt permitted _ _
  all_goals exact .pure _

omit scope in
theorem allValues {arguments arguments' : List (Reading Value)}
    (related : List.Forall₂ alike.Relates arguments arguments') :
    alike.Relates (Operand.allValues arguments) (Operand.allValues arguments') := by
  induction related with
  | nil => exact .pure (some [])
  | cons argument _ hypothesis =>
      refine argument.bind fun value => .ite (.pure none) ?_
      refine hypothesis.bind fun values => ?_
      cases values <;> exact .pure _

variable {arguments arguments' : List (Reading Value)}

theorem invokeWith (relates : view.RelatesWithin alike scope reference) (target : Value)
    {method : Symbol} (permitted : scope.permits method = true)
    (related : List.Forall₂ alike.Relates arguments arguments') :
    alike.Relates (Operand.invokeWith view target method arguments)
      (Operand.invokeWith reference target method arguments') := by
  refine (allValues related).bind fun values => ?_
  cases values with
  | none => exact .pure _
  | some values => exact relates.invoke target permitted values

theorem applyFunction (relates : view.RelatesWithin alike scope reference) (context : Context)
    {function : Symbol} (permitted : scope.permits function = true)
    (related : List.Forall₂ alike.Relates arguments arguments') :
    alike.Relates (Operand.applyFunction view context function arguments)
      (Operand.applyFunction reference context function arguments') := by
  have ordinary := relates.invokeWith (.context context) permitted related
  rcases related with _ | ⟨left, _ | ⟨right, _ | _⟩⟩
  · exact ordinary
  · exact ordinary
  · cases function
    case equal | notEqual => exact left.bind fun _ => right.bind fun _ => .pure _
    all_goals exact ordinary
  · exact ordinary

theorem applyMethod (relates : view.RelatesWithin alike scope reference) (target : Value)
    {method : Symbol} (permitted : scope.permits method = true)
    (related : List.Forall₂ alike.Relates arguments arguments') :
    alike.Relates (Operand.applyMethod view target method arguments)
      (Operand.applyMethod reference target method arguments') := by
  have ordinary := relates.invokeWith target permitted related
  rcases related with _ | ⟨first, _ | ⟨second, _ | _⟩⟩
  · exact ordinary
  · rcases target with _ | (_ | _) | _ | _ | _ | _
    case boolean.false =>
      cases method
      case and => exact .pure _
      case or => exact first.map _
      all_goals exact ordinary
    case boolean.true =>
      cases method
      case and => exact first.map _
      case or => exact .pure _
      all_goals exact ordinary
    all_goals exact ordinary
  · rcases target with _ | (_ | _) | _ | _ | _ | _
    case boolean.false =>
      cases method
      case ifElse => exact second
      all_goals exact ordinary
    case boolean.true =>
      cases method
      case ifElse => exact first
      all_goals exact ordinary
    all_goals exact ordinary
  · exact ordinary

mutual

theorem eval (relates : view.RelatesWithin alike scope reference) (context : Context) :
    (operand : Operand) → scope.Permits operand.names →
      alike.Relates (operand.eval view context) (operand.eval reference context)
  | .null _, _ | .boolean _ _, _ | .integer _ _, _ | .text _ _ _, _ => by
      simp only [Operand.eval]
      exact .pure _
  | .reference name _, permits => by
      rw [Operand.names_reference] at permits
      simp only [Operand.eval]
      split
      · exact relates.valueAttribute _ (permits.of_cons.1 _ ‹_›)
      · exact .pure _
  | .member object property _, permits => by
      rw [Operand.names_member] at permits
      obtain ⟨permitted, inside⟩ := permits.of_cons
      simp only [Operand.eval]
      refine (eval relates context object inside).bind fun value => ?_
      split
      · exact .ite (.pure _) (relates.valueAttribute _ (permitted _ ‹_›))
      · exact .pure _
  | .call function _ arguments _, permits => by
      rw [Operand.names_call] at permits
      obtain ⟨permitted, inside⟩ := permits.of_cons
      simp only [Operand.eval]
      split
      · exact relates.applyFunction context (permitted _ ‹_›)
          (evalEach relates context arguments inside)
      · exact .pure _
  | .invoke object method _ arguments _, permits => by
      rw [Operand.names_invoke] at permits
      obtain ⟨permitted, inside⟩ := permits.of_cons
      obtain ⟨insideObject, insideArguments⟩ := inside.of_append
      simp only [Operand.eval]
      refine (eval relates context object insideObject).bind fun target => ?_
      split
      · exact .ite (.pure _) (relates.applyMethod target (permitted _ ‹_›)
          (evalEach relates context arguments insideArguments))
      · exact .pure _

theorem evalEach (relates : view.RelatesWithin alike scope reference) (context : Context) :
    (operands : List Operand) → scope.Permits (Operand.namesOfAll operands) →
      List.Forall₂ alike.Relates (Operand.evalEach view context operands)
        (Operand.evalEach reference context operands)
  | [], _ => .nil
  | operand :: operands, permits => by
      rw [Operand.namesOfAll_cons] at permits
      obtain ⟨first, others⟩ := permits.of_append
      exact .cons (eval relates context operand first) (evalEach relates context operands others)

end

theorem comparison (relates : view.RelatesWithin alike scope reference) (context : Context)
    (comparison : Comparison) (permits : scope.Permits comparison.names) :
    alike.Relates (comparison.holds view context) (comparison.holds reference context) := by
  obtain ⟨onLeft, onRight⟩ := permits.of_append
  refine (relates.eval context _ onLeft).bind fun left => ?_
  split
  · exact .pure _
  · exact .pure _
  · exact (relates.eval context _ onRight).map _

theorem predicate (relates : view.RelatesWithin alike scope reference) (context : Context)
    (predicate : Predicate) (permits : scope.Permits predicate.names) :
    alike.Relates (predicate.holds view context) (predicate.holds reference context) := by
  induction predicate with
  | compare comparison =>
      rw [Predicate.names_compare] at permits
      exact relates.comparison context comparison permits
  | and left right leftFollows rightFollows =>
      rw [Predicate.names_and] at permits
      obtain ⟨onLeft, onRight⟩ := permits.of_append
      exact (leftFollows onLeft).bind fun _ => .ite (rightFollows onRight) (.pure false)
  | or left right leftFollows rightFollows =>
      rw [Predicate.names_or] at permits
      obtain ⟨onLeft, onRight⟩ := permits.of_append
      exact (leftFollows onLeft).bind fun _ => .ite (.pure true) (rightFollows onRight)

theorem answersTo (relates : view.RelatesWithin alike scope reference) (node : NodeId)
    (keys : List IndexKey) :
    alike.Relates (view.answersTo node keys) (reference.answersTo node keys) := by
  induction keys with
  | nil => exact .pure false
  | cons key keys hypothesis =>
      exact (relates.attributeValue _ _).bind fun _ => .ite (.pure true) hypothesis

end View.RelatesWithin

end TreeSelector

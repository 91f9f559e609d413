import TreeSelector.Grammar.Selector
import TreeSelector.Proofs.Tree.Served
import TreeSelector.Proofs.Typing.Checked
import TreeSelector.Proofs.Typing.Signatures

/-!
# Checked chains are well typed

Whatever is read while an operand is evaluated, its value is null or of the type that was
found for it.  So the two sides of a comparison, and the arguments of the functions that
compare, never are of different types.
-/

namespace TreeSelector

open Reading (Ensures)
open Typing (Suits typeOf)

namespace Operand

variable {view : View}

mutual

theorem eval_ensures (typed : view.IsTyped) (context : Context) :
    (operand : Operand) → ∀ {type}, typeOf operand = .ok type →
      Ensures (Value.Fits type) (operand.eval view context)
  | null _, _, accepted => by
      rw [eval]
      exact .pure (.inl rfl)
  | boolean _ _, _, accepted | integer _ _, _, accepted | text _ _ _, _, accepted => by
      rw [typeOf] at accepted
      rw [eval, ← Except.ok.inj accepted]
      exact .pure (.inr rfl)
  | reference _ _, _, accepted => by
      obtain ⟨symbol, result, named, declared, rfl⟩ := Typing.typeOf_reference accepted
      rw [eval, named]
      exact typed.contextAttribute declared context
  | member object _ _, _, accepted => by
      obtain ⟨owner, symbol, result, owned, named, declared, rfl⟩ :=
        Typing.typeOf_member accepted
      rw [eval, named]
      -- only a value that is not null is asked for anything
      refine (eval_ensures typed context object owned).bind fun value fits => ?_
      refine .ite (fun _ => .pure (Value.fits_null _)) fun present => ?_
      exact typed.valueAttribute declared (fits.type?_eq (Bool.eq_false_iff.mpr present))
  | call _ _ arguments _, _, accepted => by
      obtain ⟨signature, declared, named, suit, rfl⟩ := Typing.typeOf_call accepted
      rw [eval, named]
      exact applyFunction_ensures declared (evalEach_haveTypes typed context arguments suit) context
  | invoke object _ _ arguments _, _, accepted => by
      obtain ⟨owner, owned, signature, declared, named, suit, rfl⟩ :=
        Typing.typeOf_invoke accepted
      rw [eval, named]
      refine (eval_ensures typed context object owned).bind fun value fits => ?_
      refine .ite (fun _ => .pure (Value.fits_null _)) fun present => ?_
      exact applyMethod_ensures declared (fits.type?_eq (Bool.eq_false_iff.mpr present))
        (evalEach_haveTypes typed context arguments suit)

theorem evalEach_haveTypes (typed : view.IsTyped) (context : Context) :
    (arguments : List Operand) → ∀ {parameters : List Ty},
      List.Forall₂ Suits arguments parameters →
        Reading.HaveTypes parameters (evalEach view context arguments)
  | [], _, .nil => by
      rw [evalEach]
      exact .nil
  | argument :: arguments, _, .cons ⟨type, accepted, suits⟩ others => by
      rw [evalEach]
      refine .cons (fun session => ?_) (evalEach_haveTypes typed context arguments others)
      have fits := eval_ensures typed context argument accepted session
      rcases suits with rfl | rfl
      · exact fits.of_none
      · exact fits

end

/-- The arguments of a function that compares are of one type. -/
theorem arguments_areComparable (typed : view.IsTyped) (context : Context) {function : Name}
    {functionSpan span : Span} {left right : Operand} {type : Option Ty}
    (accepted : typeOf (.call function functionSpan [left, right] span) = .ok type)
    (session session' : Session) :
    Value.AreComparable ((left.eval view context).answer session)
      ((right.eval view context).answer session') := by
  obtain ⟨signature, declared, _, suit, _⟩ := Typing.typeOf_call accepted
  have alike : ∀ signature ∈ Ty.global.methods, signature.parameters.length = 2 →
      signature.parameters[0]? = signature.parameters[1]? := by decide
  have same := alike signature declared
  rcases parameters : signature.parameters with _ | ⟨first, _ | ⟨second, others⟩⟩
  all_goals
    rw [parameters] at suit same
    have readings := evalEach_haveTypes typed context [left, right] suit
    rw [evalEach, evalEach, evalEach] at readings
    rcases readings with _ | ⟨leftFits, _ | ⟨rightFits, _ | _⟩⟩
  exact (leftFits session).areComparable (rightFits session') (.inr (.inr (same rfl)))

end Operand

namespace Chain

/-- In a chain whose types were checked, every operand evaluates to null or to a value of
the type that was found for it, and no two values of different types are compared, be it
by a relation or by a function; and every name belongs to the vocabulary. -/
theorem eval_fits_of_checkTypes (chain : Chain) (checked : chain.checkTypes = .ok ())
    (host : Host) (remembering : Bool) (context : Context) :
    let value := fun (operand : Operand) (session : Session) =>
      (operand.eval (host.view remembering) context).answer session
    (∀ operand ∈ chain.operands, ∃ type, typeOf operand = .ok type ∧
        (∀ result, type = some result → result ∈ Ty.valueTypes) ∧
          ∀ session, (value operand session).Fits type) ∧
      (∀ name ∈ chain.names, ∃ symbol, name.symbol? = some symbol) ∧
      (∀ comparison ∈ chain.comparisons, ∀ session session',
        Value.AreComparable (value comparison.left session) (value comparison.right session')) ∧
      ∀ function functionSpan left right span,
        .call function functionSpan [left, right] span ∈ chain.operands →
          ∀ session session',
            Value.AreComparable (value left session) (value right session') := by
  intro value
  have typed := host.view_isTyped remembering
  have accepted := Typing.checkAll_eq_ok checked
  have resolved : ∀ operand ∈ chain.operands, ∃ type, typeOf operand = .ok type := by
    intro operand member
    obtain ⟨comparison, present, inside⟩ := List.mem_flatMap.mp member
    obtain ⟨left, right, leftTyped, rightTyped, _⟩ :=
      Typing.checkComparison_eq_ok (accepted comparison present)
    rcases List.mem_append.mp inside with onLeft | onRight
    · exact Typing.typeOf_parts _ leftTyped operand onLeft
    · exact Typing.typeOf_parts _ rightTyped operand onRight
  refine ⟨?_, ?_, ?_, ?_⟩
  · intro operand member
    obtain ⟨type, found⟩ := resolved operand member
    refine ⟨type, found, ?_, Operand.eval_ensures typed context operand found⟩
    rintro result rfl
    exact Typing.mem_valueTypes_of_typeOf found
  · intro name member
    obtain ⟨comparison, present, inside⟩ := List.mem_flatMap.mp member
    obtain ⟨left, right, leftTyped, rightTyped, _⟩ :=
      Typing.checkComparison_eq_ok (accepted comparison present)
    rcases List.mem_append.mp inside with onLeft | onRight
    · exact Typing.symbol?_of_mem_names leftTyped name onLeft
    · exact Typing.symbol?_of_mem_names rightTyped name onRight
  · intro comparison present session session'
    obtain ⟨left, right, leftTyped, rightTyped, same⟩ :=
      Typing.checkComparison_eq_ok (accepted comparison present)
    exact (Operand.eval_ensures typed context _ leftTyped session).areComparable
      (Operand.eval_ensures typed context _ rightTyped session') same
  · intro function functionSpan left right span member session session'
    obtain ⟨type, found⟩ := resolved _ member
    exact Operand.arguments_areComparable typed context found session session'

/-- The position of a text in that of a child is compared with an integer, to which the
outcome of a comparison was turned. -/
theorem eval_fits_searchedText :
    let position : Operand := .invoke (.member (.call (.known .getChild) ⟨1, 9⟩
      [.integer 0 ⟨10, 11⟩] ⟨1, 12⟩) (.known .text) ⟨1, 17⟩) (.known .indexOf) ⟨1, 25⟩
      [.text "a" none ⟨26, 29⟩, .integer 1 ⟨31, 32⟩] ⟨1, 33⟩
    let outcome : Operand := .invoke (.call (.known .equal) ⟨34, 39⟩
      [.reference (.known .id) ⟨40, 42⟩, .null ⟨44, 48⟩] ⟨34, 49⟩) (.known .toInt) ⟨34, 55⟩
      [] ⟨34, 57⟩
    let chain : Chain :=
      .last ⟨false, .compare ⟨position, .equal, outcome, ⟨1, 57⟩⟩, none, ⟨0, 58⟩⟩
    let tree : CapturedNode := .node {} [.node { text := "banana" } [], .node {} []]
    let host : Host := { Host.serving tree [2] true with holes := [(0, 1)] }
    let value := fun (operand : Operand) (session : Session) =>
      (operand.eval (host.view true) (.single 0)).answer session
    parse "[getChild(0).text.indexOf('a', 1)=equal(id, null).toInt()]" = .ok chain ∧
      chain.checkTypes = .ok () ∧
      (∀ session session',
        Value.AreComparable (value position session) (value outcome session')) ∧
      value position (.fresh 1) = .int 1 ∧ value outcome (.fresh 1) = .int 1 := by
  intro position outcome chain tree host value
  have parsed : parse "[getChild(0).text.indexOf('a', 1)=equal(id, null).toInt()]" =
      .ok chain := by decide +kernel
  have checked : chain.checkTypes = .ok () := by decide +kernel
  obtain ⟨_, _, comparable, _⟩ := eval_fits_of_checkTypes chain checked host true (.single 0)
  exact ⟨parsed, checked, comparable _ List.mem_cons_self, by decide +kernel, by decide +kernel⟩

end Chain

end TreeSelector

import TreeSelector.Grammar.Selector
import TreeSelector.Proofs.Typing.Checked

/-!
# Problems behind other problems

The first problem of a selector is reported, but of the overloads of a call it is the last
one whose problem is.  So an argument that cannot be resolved may hide behind an argument
before it that only the last overload does not take.
-/

namespace TreeSelector

namespace SelectorError

/-- Something is asked for that is not declared, or not with so many arguments. -/
def IsUndeclared : SelectorError → Prop
  | unknownName _ _ | unknownFunction _ _ | functionArity _ _ _ | unknownMember _ _ _
  | unknownMethod _ _ _ | methodArity _ _ _ _ => True
  | _ => False

/-- An argument is of another type than a parameter. -/
def IsMisfit (problem : SelectorError) : Prop :=
  ∃ call argument found span, problem = misfitArgument call argument found span

theorem IsUndeclared.not_isMisfit {problem : SelectorError} (undeclared : problem.IsUndeclared) :
    ¬ problem.IsMisfit := by
  rintro ⟨_, _, _, _, rfl⟩
  exact undeclared

end SelectorError

namespace Typing

/-- Arguments suit the parameters that they stand for, of which there may be more. -/
def SuitFirst (arguments : List Operand) (parameters : List Ty) : Prop :=
  List.Forall₂ Suits arguments (parameters.take arguments.length)

section Overloads

variable {call : Operand} {problem : SelectorError}

theorem checkArguments_cons {argument : Operand} {type : Option Ty} {parameter : Ty}
    (resolved : typeOf argument = .ok type) (arguments : List Operand) (parameters : List Ty) :
    Suits argument parameter ∧
        checkArguments call (parameter :: parameters) (typesOf (argument :: arguments)) =
          checkArguments call parameters (typesOf arguments) ∨
      ¬ Suits argument parameter ∧ ∃ misfit : SelectorError, misfit.IsMisfit ∧
        checkArguments call (parameter :: parameters) (typesOf (argument :: arguments)) =
          .error misfit := by
  rw [typesOf, checkArguments, resolved]
  cases type with
  | none => exact .inl ⟨⟨none, resolved, .inl rfl⟩, rfl⟩
  | some found =>
      by_cases same : found = parameter
      · subst same
        refine .inl ⟨⟨some found, resolved, .inr rfl⟩, ?_⟩
        simp [bind, Except.bind]
      · refine .inr ⟨?_, _, ⟨call, argument, found.title, argument.span, rfl⟩, ?_⟩
        · rintro ⟨type, resolved', suits⟩
          obtain rfl := Except.ok.inj (resolved.symm.trans resolved')
          rcases suits with suits | suits
          · cases suits
          · exact same (Option.some.inj suits)
        · simp [bind, Except.bind, same]
          rfl

/-- Arguments before one that has a problem are checked first, and the first of them that
does not fit is reported in its place. -/
theorem checkArguments_append {hole : Operand} (unresolved : typeOf hole = .error problem)
    (after : List Operand) {before : List Operand}
    (resolved : ∀ argument ∈ before, ∃ type, typeOf argument = .ok type)
    {parameters : List Ty} (inside : before.length < parameters.length) :
    SuitFirst before parameters ∧
        checkArguments call parameters (typesOf (before ++ hole :: after)) = .error problem ∨
      ¬ SuitFirst before parameters ∧ ∃ misfit : SelectorError, misfit.IsMisfit ∧
        checkArguments call parameters (typesOf (before ++ hole :: after)) = .error misfit := by
  induction before generalizing parameters with
  | nil =>
      cases parameters with
      | nil => cases inside
      | cons parameter parameters =>
          refine .inl ⟨.nil, ?_⟩
          rw [List.nil_append, typesOf, checkArguments, unresolved]
          rfl
  | cons argument before hypothesis =>
      obtain ⟨type, typed⟩ := resolved argument List.mem_cons_self
      cases parameters with
      | nil => cases inside
      | cons parameter parameters =>
          have both : SuitFirst (argument :: before) (parameter :: parameters) ↔
              Suits argument parameter ∧ SuitFirst before parameters :=
            List.forall₂_cons
          rw [both, List.cons_append]
          rcases checkArguments_cons typed (before ++ hole :: after) parameters with
            ⟨suits, goesOn⟩ | ⟨unsuited, misfit⟩
          · rw [goesOn]
            rcases hypothesis (fun other member => resolved other (List.mem_cons_of_mem _ member))
              (Nat.lt_of_succ_lt_succ inside) with ⟨suit, reached⟩ | ⟨unsuited, misfit⟩
            · exact .inl ⟨⟨suits, suit⟩, reached⟩
            · exact .inr ⟨fun suit => unsuited suit.2, misfit⟩
          · exact .inr ⟨fun suit => unsuited suit.1, misfit⟩

/-- Where no overload fits, the problem with the last one is reported. -/
theorem chooseOverload_eq_error {arguments : List (Operand × Typed)} {method : Method}
    {methods : List Method} {last : Method} (ends : (method :: methods).getLast? = some last)
    (rejected : ∀ overload ∈ method :: methods,
      ∃ problem, checkArguments call overload.parameters arguments = .error problem)
    (reported : checkArguments call last.parameters arguments = .error problem) :
    chooseOverload call arguments method methods = .error problem := by
  induction methods generalizing method with
  | nil =>
      have only : method = last := Option.some.inj ends
      rw [chooseOverload, only, reported]
      rfl
  | cons next methods hypothesis =>
      obtain ⟨first, misfit⟩ := rejected method List.mem_cons_self
      rw [chooseOverload, misfit]
      exact hypothesis (by simpa using ends)
        fun overload member => rejected overload (List.mem_cons_of_mem _ member)

end Overloads

end Typing

namespace Operand

open Typing (SuitFirst Suits typeOf typesOf methodsOf ownerOf chooseOverload checkArguments)

/-- What is called: a function, or a method of an operand. -/
inductive Callee where
  | function (name : Name) (span : Span)
  | method (object : Operand) (name : Name) (span : Span)

namespace Callee

def call : Callee → (arguments : List Operand) → Span → Operand
  | function name nameSpan, arguments, span => .call name nameSpan arguments span
  | method object name nameSpan, arguments, span => .invoke object name nameSpan arguments span

/-- What is declared under its name for some number of arguments, if it can be looked up. -/
def overloads : Callee → (arity : Nat) → List Method
  | function name _, arity => (methodsOf .global name).filter (·.parameters.length = arity)
  | method object name span, arity =>
      match ownerOf (typeOf object) name span with
      | .ok owner => (methodsOf owner name).filter (·.parameters.length = arity)
      | .error _ => []

theorem length_parameters_of_mem {callee : Callee} {arity : Nat} {overload : Method}
    (member : overload ∈ callee.overloads arity) : overload.parameters.length = arity := by
  unfold overloads at member
  split at member
  · simpa using (List.mem_filter.mp member).2
  · split at member
    · simpa using (List.mem_filter.mp member).2
    · cases member

theorem callType_of_overloads {call : Operand} {named : List Method} {arguments : List Operand}
    {unknown wrongArity : SelectorError} {method : Method} {methods : List Method}
    (declared : named.filter (·.parameters.length = arguments.length) = method :: methods) :
    Typing.callType call named (typesOf arguments) unknown wrongArity =
      chooseOverload call (typesOf arguments) method methods := by
  have present : named.isEmpty = false := by
    cases named with
    | nil => cases declared
    | cons => rfl
  have length : (typesOf arguments).length = arguments.length := by
    rw [Typing.typesOf_eq_map, List.length_map]
  simp [Typing.callType, present, length, declared]

/-- A call is resolved by the overloads that take so many arguments. -/
theorem typeOf_call {callee : Callee} {arguments : List Operand} {method : Method}
    {methods : List Method} (declared : callee.overloads arguments.length = method :: methods)
    (span : Span) :
    typeOf (callee.call arguments span) =
      some <$> chooseOverload (callee.call arguments span) (typesOf arguments) method methods := by
  cases callee with
  | function name nameSpan =>
      rw [call, typeOf, callType_of_overloads declared]
  | method object name nameSpan =>
      rw [overloads] at declared
      split at declared
      · rename_i owner owned
        rw [call, typeOf, owned]
        exact congrArg (some <$> ·) (callType_of_overloads declared)
      · cases declared

/-- No overload takes an argument that has a problem, or else one before it. -/
theorem checkArguments_overload (callee : Callee) {inner : Operand} {problem : SelectorError}
    (unresolved : typeOf inner = .error problem) (after : List Operand) {before : List Operand}
    (resolved : ∀ argument ∈ before, ∃ type, typeOf argument = .ok type) (span : Span) :
    ∀ overload ∈ callee.overloads (before.length + (after.length + 1)),
      SuitFirst before overload.parameters ∧
          checkArguments (callee.call (before ++ inner :: after) span) overload.parameters
            (typesOf (before ++ inner :: after)) = .error problem ∨
        ¬ SuitFirst before overload.parameters ∧ ∃ misfit : SelectorError, misfit.IsMisfit ∧
          checkArguments (callee.call (before ++ inner :: after) span) overload.parameters
            (typesOf (before ++ inner :: after)) = .error misfit := by
  intro overload member
  have arity := length_parameters_of_mem member
  exact Typing.checkArguments_append unresolved after resolved (by omega)

end Callee

/-- What is written around an operand. -/
inductive Layer where
  | member (property : Name) (span : Span)
  | receiver (method : Name) (methodSpan : Span) (arguments : List Operand) (span : Span)
  | argument (callee : Callee) (before after : List Operand) (span : Span)

namespace Layer

def around : Layer → (inner : Operand) → Operand
  | member property span, inner => .member inner property span
  | receiver method methodSpan arguments span, inner =>
      .invoke inner method methodSpan arguments span
  | argument callee before after span, inner => callee.call (before ++ inner :: after) span

/-- Whatever is checked before the operand inside can be resolved: a callee that takes so many
arguments, and the arguments before it. -/
def Reaches : Layer → Prop
  | member _ _ | receiver _ _ _ _ => True
  | argument callee before after _ =>
      callee.overloads (before.length + (after.length + 1)) ≠ [] ∧
        ∀ argument ∈ before, ∃ type, typeOf argument = .ok type

/-- The arguments before the operand inside suit the last overload. -/
def Passes : Layer → Prop
  | member _ _ | receiver _ _ _ _ => True
  | argument callee before after _ =>
      ∀ last ∈ (callee.overloads (before.length + (after.length + 1))).getLast?,
        SuitFirst before last.parameters

/-- A problem inside is reported, unless an argument before it does not suit the last
overload. -/
theorem typeOf_around {layer : Layer} (reaches : layer.Reaches) {inner : Operand}
    {problem : SelectorError} (unresolved : typeOf inner = .error problem) :
    layer.Passes ∧ typeOf (layer.around inner) = .error problem ∨
      ¬ layer.Passes ∧ ∃ misfit : SelectorError, misfit.IsMisfit ∧
        typeOf (layer.around inner) = .error misfit := by
  cases layer with
  | member property span =>
      refine .inl ⟨trivial, ?_⟩
      rw [around, typeOf, unresolved]
      rfl
  | receiver method methodSpan arguments span =>
      refine .inl ⟨trivial, ?_⟩
      rw [around, typeOf, unresolved]
      rfl
  | argument callee before after span =>
      obtain ⟨declared, resolved⟩ := reaches
      obtain ⟨method, methods, overloads⟩ := List.exists_cons_of_ne_nil declared
      obtain ⟨last, ends⟩ : ∃ last, (method :: methods).getLast? = some last :=
        ⟨_, List.getLast?_eq_some_getLast (List.cons_ne_nil method methods)⟩
      have length : (before ++ inner :: after).length = before.length + (after.length + 1) := by
        simp
      have checked := callee.checkArguments_overload unresolved after resolved span
      rw [overloads] at checked
      have rejected : ∀ overload ∈ method :: methods, ∃ problem, checkArguments
          (callee.call (before ++ inner :: after) span) overload.parameters
          (typesOf (before ++ inner :: after)) = .error problem := by
        intro overload member
        rcases checked overload member with ⟨_, reported⟩ | ⟨_, misfit, _, reported⟩
        · exact ⟨problem, reported⟩
        · exact ⟨misfit, reported⟩
      have passes : Passes (.argument callee before after span) ↔
          SuitFirst before last.parameters := by
        simp [Passes, overloads, ends]
      rw [passes, around, Callee.typeOf_call (by rw [length, overloads]) span]
      rcases checked last (List.mem_of_getLast? ends) with
        ⟨suit, reported⟩ | ⟨unsuited, misfit, isMisfit, reported⟩
      · refine .inl ⟨suit, ?_⟩
        rw [Typing.chooseOverload_eq_error ends rejected reported]
        rfl
      · refine .inr ⟨unsuited, misfit, isMisfit, ?_⟩
        rw [Typing.chooseOverload_eq_error ends rejected reported]
        rfl

/-- An operand with what is written around it, the outermost layer first. -/
def aroundAll (layers : List Layer) (inner : Operand) : Operand := layers.foldr around inner

/-- A problem inside some layers is reported, unless one of them keeps another problem in
front of it. -/
theorem typeOf_aroundAll {layers : List Layer} (reaches : ∀ layer ∈ layers, layer.Reaches)
    {inner : Operand} {problem : SelectorError} (unresolved : typeOf inner = .error problem) :
    (∀ layer ∈ layers, layer.Passes) ∧ typeOf (aroundAll layers inner) = .error problem ∨
      ¬ (∀ layer ∈ layers, layer.Passes) ∧ ∃ misfit : SelectorError, misfit.IsMisfit ∧
        typeOf (aroundAll layers inner) = .error misfit := by
  induction layers with
  | nil => exact .inl ⟨List.forall_mem_nil _, unresolved⟩
  | cons layer layers hypothesis =>
      obtain ⟨outer, others⟩ := List.forall_mem_cons.mp reaches
      rw [List.forall_mem_cons]
      rcases hypothesis others with ⟨pass, reported⟩ | ⟨stops, hidden, isMisfit, reported⟩
      · rcases typeOf_around outer reported with ⟨passes, same⟩ | ⟨stops, misfit⟩
        · exact .inl ⟨⟨passes, pass⟩, same⟩
        · exact .inr ⟨fun all => stops all.1, misfit⟩
      -- what stands in front of the problem inside may itself be hidden
      · refine .inr ⟨fun all => stops all.2, ?_⟩
        rcases typeOf_around outer reported with ⟨_, same⟩ | ⟨_, misfit⟩
        · exact ⟨hidden, isMisfit, same⟩
        · exact misfit

end Layer

end Operand

namespace Chain

open Typing (typeOf checkComparison)
open Operand (Layer Callee)

/-- An operand is a side of a comparison, and nothing that is checked before it has a
problem. -/
def AsksFor (chain : Chain) (side : Operand) : Prop :=
  ∃ earlier comparison later, chain.comparisons = earlier ++ comparison :: later ∧
    (∀ comparison ∈ earlier, checkComparison comparison = .ok ()) ∧
    Typing.literalsSuit comparison = true ∧
    (comparison.left = side ∨
      (∃ type, typeOf comparison.left = .ok type) ∧ comparison.right = side)

theorem checkAll_append {earlier : List Comparison}
    (fine : ∀ comparison ∈ earlier, checkComparison comparison = .ok ())
    (later : List Comparison) :
    Typing.checkAll (earlier ++ later) = Typing.checkAll later := by
  induction earlier with
  | nil => rfl
  | cons comparison earlier hypothesis =>
      obtain ⟨first, others⟩ := List.forall_mem_cons.mp fine
      rw [List.cons_append, Typing.checkAll, first]
      exact hypothesis others

theorem AsksFor.checkTypes_eq {chain : Chain} {side : Operand} (asks : chain.AsksFor side)
    {problem : SelectorError} (unresolved : typeOf side = .error problem) :
    chain.checkTypes = .error problem := by
  obtain ⟨earlier, comparison, later, split, fine, literals, side⟩ := asks
  rw [checkTypes, split, checkAll_append fine, Typing.checkAll]
  have reported : checkComparison comparison = .error problem := by
    unfold checkComparison
    rcases side with rfl | ⟨⟨type, resolved⟩, rfl⟩
    · simp [literals, unresolved, bind, Except.bind]
    · simp [literals, resolved, unresolved, bind, Except.bind]
  rw [reported]
  rfl

/-- Something undeclared inside an operand that is asked for is reported, such as one in an
argument of a call, exactly if the arguments before it suit the last overload, in that call
and in every call around it.  Otherwise one of these is said to be of a wrong type. -/
theorem undeclared_reported_iff {chain : Chain} {layers : List Layer} {inner : Operand}
    {problem : SelectorError} (asked : chain.AsksFor (Layer.aroundAll layers inner))
    (reaches : ∀ layer ∈ layers, layer.Reaches) (unresolved : typeOf inner = .error problem)
    (undeclared : problem.IsUndeclared) :
    (chain.checkTypes = .error problem ↔ ∀ layer ∈ layers, layer.Passes) ∧
      (chain.checkTypes = .error problem ∨
        ∃ misfit : SelectorError, misfit.IsMisfit ∧ chain.checkTypes = .error misfit) := by
  rcases Layer.typeOf_aroundAll reaches unresolved with
    ⟨pass, reported⟩ | ⟨stops, misfit, isMisfit, reported⟩
  · have same := asked.checkTypes_eq reported
    exact ⟨⟨fun _ => pass, fun _ => same⟩, .inl same⟩
  · have hidden := asked.checkTypes_eq reported
    refine ⟨⟨fun same => ?_, fun pass => absurd pass stops⟩, .inr ⟨misfit, isMisfit, hidden⟩⟩
    obtain rfl := Except.error.inj (same.symm.trans hidden)
    exact absurd isMisfit undeclared.not_isMisfit

/-- An unknown name is reported from inside a call whose first argument is a context, which
is what the last overload takes. -/
theorem undeclared_reported_afterContext :
    let unknown : Operand := .reference (.unknown "nope") ⟨13, 17⟩
    let layers : List Layer :=
      [.argument (.function (.known .equal) ⟨1, 6⟩) [.reference (.known .prev) ⟨7, 11⟩] []
        ⟨1, 18⟩]
    let chain : Chain := .last ⟨false, .compare ⟨Layer.aroundAll layers unknown, .equal,
      .boolean true ⟨19, 23⟩, ⟨1, 23⟩⟩, none, ⟨0, 24⟩⟩
    parse "[equal(prev, nope)=true]" = .ok chain ∧
      chain.AsksFor (Layer.aroundAll layers unknown) ∧ (∀ layer ∈ layers, layer.Reaches) ∧
      typeOf unknown = .error (.unknownName "nope" ⟨13, 17⟩) ∧
      chain.checkTypes = .error (.unknownName "nope" ⟨13, 17⟩) := by
  intro unknown layers chain
  have parsed : parse "[equal(prev, nope)=true]" = .ok chain := by decide +kernel
  have asked : chain.AsksFor (Layer.aroundAll layers unknown) :=
    ⟨[], _, [], rfl, List.forall_mem_nil _, rfl, .inl rfl⟩
  have context : typeOf (.reference (.known .prev) ⟨7, 11⟩) = .ok (some .context) := by
    decide +kernel
  have reaches : ∀ layer ∈ layers, layer.Reaches := by
    intro layer member
    obtain rfl := List.mem_singleton.mp member
    refine ⟨by decide +kernel, fun argument member => ?_⟩
    obtain rfl := List.mem_singleton.mp member
    exact ⟨_, context⟩
  have unresolved : typeOf unknown = .error (.unknownName "nope" ⟨13, 17⟩) := by
    decide +kernel
  refine ⟨parsed, asked, reaches, unresolved,
    (undeclared_reported_iff asked reaches unresolved trivial).1.mpr fun layer member => ?_⟩
  obtain rfl := List.mem_singleton.mp member
  rintro last ⟨⟩
  exact .cons ⟨_, context, .inr rfl⟩ .nil

/-- An unknown name behind an integer, which another overload takes, is not reported. -/
theorem undeclared_hidden :
    ¬ ∀ (source : String) (chain : Chain) (layers : List Layer) (callee : Callee)
      (before after : List Operand) (span : Span) (inner : Operand) (problem : SelectorError),
      parse source = .ok chain →
      chain.AsksFor (Layer.aroundAll (layers ++ [.argument callee before after span]) inner) →
      (∀ layer ∈ layers, layer.Reaches) →
      (∃ overload ∈ callee.overloads (before.length + (after.length + 1)),
        ∀ position argument, (before ++ inner :: after)[position]? = some argument →
          position ≠ before.length →
          ∃ parameter ∈ overload.parameters[position]?, Typing.Suits argument parameter) →
      typeOf inner = .error problem → problem.IsUndeclared →
      chain.checkTypes = .error problem := by
  intro always
  let one : Operand := .integer 1 ⟨7, 8⟩
  let unknown : Operand := .reference (.unknown "nope") ⟨9, 13⟩
  let callee : Callee := .function (.known .equal) ⟨1, 6⟩
  let chain : Chain := .last ⟨false, .compare ⟨callee.call [one, unknown] ⟨1, 14⟩, .equal,
    .boolean true ⟨15, 19⟩, ⟨1, 19⟩⟩, none, ⟨0, 20⟩⟩
  have parsed : parse "[equal(1,nope)=true]" = .ok chain := by decide +kernel
  have taken : ∃ overload ∈ callee.overloads 2, overload.parameters[0]? = some .int := by
    decide +kernel
  obtain ⟨overload, declared, wanted⟩ := taken
  have asked : chain.AsksFor (callee.call [one, unknown] ⟨1, 14⟩) :=
    ⟨[], _, [], rfl, List.forall_mem_nil _, rfl, .inl rfl⟩
  have reported := always _ chain [] callee [one] [] ⟨1, 14⟩ unknown
    (.unknownName "nope" ⟨9, 13⟩) parsed asked (List.forall_mem_nil _)
    ⟨overload, declared, fun position argument found other => ?_⟩ (by decide +kernel) trivial
  · have hidden : chain.checkTypes =
        .error (.misfitArgument (callee.call [one, unknown] ⟨1, 14⟩) one "int" ⟨7, 8⟩) := by
      decide +kernel
    rw [hidden] at reported
    cases reported
  · cases position with
    | zero =>
        obtain rfl := Option.some.inj found
        exact ⟨.int, wanted, some .int, by rw [typeOf], .inr rfl⟩
    | succ position =>
        cases position with
        | zero => exact absurd rfl other
        | succ => cases found

end Chain

end TreeSelector

import TreeSelector.Proofs.Eval.Resemblance
import TreeSelector.Proofs.Language.Names
import TreeSelector.Proofs.Reading.Direct

/-!
# Nodes of which nothing can be read

Whatever is asked of a node that cannot be accessed, the answer is that nothing is there.
So a predicate says the same of any two such nodes, whichever trees they are in, unless it
looks back at the nodes that were matched before them.
-/

namespace TreeSelector

open Reading (Gives)

/-- The view in which nothing is there. -/
def View.blind : View where
  root := return none
  parent _ := return none
  child _ _ := return none
  childCount _ := return 0
  index _ := return some 0
  depth _ := return 0
  attributeValue _ _ := return .absent
  lookUp _ _ := return none
  heightBound := 0

/-- Nothing can be read of a node. -/
structure View.IsBlindAt (view : View) (node : NodeId) : Prop where
  parent : Gives (view.parent node) none
  child : ∀ index, Gives (view.child node index) none
  childCount : Gives (view.childCount node) 0
  index : Gives (view.index node) (some 0)
  depth : Gives (view.depth node) 0
  attributeValue : ∀ attr, Gives (view.attributeValue node attr) .absent

theorem View.blind_isBlindAt (node : NodeId) : View.blind.IsBlindAt node where
  parent := .pure none
  child := fun _ => .pure none
  childCount := .pure 0
  index := .pure (some 0)
  depth := .pure 0
  attributeValue := fun _ => .pure AttributeValue.absent

/-- Nothing can be read of a node that cannot be accessed. -/
theorem Host.IsPlain.isBlindAt {host : Host} (plain : host.IsPlain) {node : NodeId}
    (gone : host.isLive node = false) : host.directView.IsBlindAt node := by
  obtain ⟨error, denied⟩ : ∃ error, host.access node = .error error := by
    unfold isLive at gone
    cases access : host.access node with
    | error error => exact ⟨error, rfl⟩
    | ok entry =>
        rw [access] at gone
        cases gone
  have orphaned : Gives (host.directView.parent node) none := by
    have asked := (Reading.gives_ask (host.parent node)).map Option.join
    have nowhere : (host.parent node).toOption.join = none := by rw [parent, denied]; rfl
    rwa [nowhere] at asked
  constructor
  · exact orphaned
  · intro index
    have asked := plain.gives_child node index
    have nowhere : (host.child node index).toOption.join = none := by rw [child, denied]; rfl
    rwa [nowhere] at asked
  · have asked : Gives (host.directView.childCount node) ((host.childCount node).toOption.getD 0) :=
      gives_childCount node
    have nowhere : (host.childCount node).toOption = none := by rw [childCount, denied]; rfl
    rwa [nowhere] at asked
  · exact orphaned.bind (.pure (some 0))
  · exact orphaned.bind (.pure 0)
  · intro attr
    have asked := plain.gives_attributeValue node attr
    have nowhere : (host.attributeValue node attr).toOption = none := by
      rw [attributeValue, denied]; rfl
    rwa [nowhere] at asked

/-- Neither of two readings depends on what was read before, and their answers are
related. -/
def Reading.Relates {α β : Type} (related : α → β → Prop) (reading : Reading α)
    (reading' : Reading β) : Prop :=
  ∃ value value', Gives reading value ∧ Gives reading' value' ∧ related value value'

namespace Reading.Relates

variable {α α' β β' : Type} {related : α → α' → Prop} {related' : β → β' → Prop}

theorem pure {value : α} {value' : α'} (alike : related value value') :
    Relates related (Pure.pure value) (Pure.pure value') :=
  ⟨value, value', .pure value, .pure value', alike⟩

theorem bind {reading : Reading α} {reading' : Reading α'} {next : α → Reading β}
    {next' : α' → Reading β'} (first : Relates related reading reading')
    (second : ∀ value value', related value value' →
      Relates related' (next value) (next' value')) :
    Relates related' (reading >>= next) (reading' >>= next') := by
  obtain ⟨value, value', gives, gives', alike⟩ := first
  obtain ⟨final, final', givesFinal, givesFinal', alikeFinal⟩ := second value value' alike
  exact ⟨final, final', gives.bind givesFinal, gives'.bind givesFinal', alikeFinal⟩

end Reading.Relates

namespace View

/-- What a name tells about a node of which nothing can be read. -/
def unseen : Symbol → Value
  | .index | .depth | .childCount => .int 0
  | _ => .null

theorem unseen_isPlain (name : Symbol) : (unseen name).isPlain = true := by
  cases name <;> rfl

namespace IsBlindAt

variable {view : View} {node : NodeId}

theorem nodeAttribute (blind : view.IsBlindAt node) (name : Symbol) :
    Gives (view.nodeAttribute node name) (unseen name) := by
  cases name
  case index => exact blind.index.map _
  case depth => exact blind.depth.map _
  case parent => exact blind.parent.map _
  case childCount => exact blind.childCount.map _
  all_goals first
    | exact (blind.attributeValue _).map _
    | exact .pure Value.null

theorem childAt (blind : view.IsBlindAt node) (position : Int32) :
    Gives (view.childAt node position) .null := by
  unfold View.childAt
  split
  · exact (blind.child _).map _
  · exact .pure Value.null

theorem invoke_node (blind : view.IsBlindAt node) (method : Symbol) (arguments : List Value) :
    Gives (view.invoke (.node node) method arguments) .null := by
  unfold View.invoke
  split
  case h_1 target => cases target; exact blind.childAt _
  case h_2 target => cases target
  case h_3 target => cases target
  all_goals exact .pure Value.null

/-- What a context has to say of a method of its current node. -/
theorem invoke_context {context : Context} (blind : view.IsBlindAt context.current)
    {method : Symbol} {arguments : List Value}
    (first : method = .getPrev → context.earlier = []) :
    Gives (view.invoke (.context context) method arguments) .null := by
  unfold View.invoke
  split
  case h_1 target => cases target
  case h_2 target => cases target; exact blind.childAt _
  case h_3 steps target =>
    cases target
    have nowhere : (View.position? steps).bind context.previous? = none := by
      cases View.position? steps with
      | none => rfl
      | some steps => simp [Context.previous?, first rfl, Context.ofList?]
    rw [nowhere]
    exact .pure Value.null
  all_goals exact .pure Value.null

end IsBlindAt

end View

/-- Whether a name asks for what was matched before. -/
def Name.looksBack (name : Name) : Bool :=
  name.symbol? = some .prev || name.symbol? = some .getPrev

namespace Context

variable {context context' : Context} {name : Name} {names names' : List Name}

/-- Nothing was matched before two contexts, or no name asks for it. -/
def Oblivious (context context' : Context) (names : List Name) : Prop :=
  (context.earlier = [] ∧ context'.earlier = []) ∨ ∀ name ∈ names, name.looksBack = false

theorem Oblivious.mono (oblivious : Oblivious context context' names)
    (inside : names' ⊆ names) : Oblivious context context' names' :=
  oblivious.imp_right fun forward name member => forward name (inside member)

theorem Oblivious.of_append (oblivious : Oblivious context context' (names ++ names')) :
    Oblivious context context' names ∧ Oblivious context context' names' :=
  ⟨oblivious.mono (List.subset_append_left _ _), oblivious.mono (List.subset_append_right _ _)⟩

theorem Oblivious.first (oblivious : Oblivious context context' (name :: names))
    {symbol : Symbol} (names : name.symbol? = some symbol)
    (back : symbol = .prev ∨ symbol = .getPrev) : context.earlier = [] ∧ context'.earlier = [] := by
  rcases oblivious with first | forward
  · exact first
  · have ahead := forward name List.mem_cons_self
    rcases back with rfl | rfl <;> simp [Name.looksBack, names] at ahead

end Context

section Evaluation

open Reading (Relates)
open Value (Resembles)

variable {view view' : View} {context context' : Context}
  (blind : view.IsBlindAt context.current) (blind' : view'.IsBlindAt context'.current)
include blind blind'

theorem View.valueAttribute_relates {target target' : Value}
    (alike : target.Resembles context context' target') {name : Symbol}
    (first : name = .prev → context.earlier = [] ∧ context'.earlier = []) :
    Relates (Resembles context context') (view.valueAttribute target name)
      (view'.valueAttribute target' name) := by
  have unknown : Relates (Resembles context context') (view.nodeAttribute context.current name)
      (view'.nodeAttribute context'.current name) :=
    ⟨_, _, blind.nodeAttribute name, blind'.nodeAttribute name, .plain (unseen_isPlain name)⟩
  cases alike with
  | plain isPlain =>
      have known : (Method.plainAttribute target name).isPlain = true := by
        unfold Method.plainAttribute
        split <;> rfl
      cases target with
      | node | context => cases isPlain
      | null | boolean | int | string => exact .pure (.plain known)
  | node => exact unknown
  | context =>
      cases name
      case prev =>
        obtain ⟨nothing, nothing'⟩ := first rfl
        refine .pure ?_
        rw [Context.previous?, Context.previous?, nothing, nothing']
        exact .plain rfl
      case current => exact .pure .node
      all_goals exact unknown

theorem View.invoke_relates {target target' : Value}
    (alike : target.Resembles context context' target') {method : Symbol}
    (first : method = .getPrev → context.earlier = [] ∧ context'.earlier = [])
    {arguments arguments' : List Value}
    (related : List.Forall₂ (Resembles context context') arguments arguments') :
    Relates (Resembles context context') (view.invoke target method arguments)
      (view'.invoke target' method arguments') := by
  cases alike with
  | plain isPlain =>
      have applied := Method.ofPlain_resembles target method related
      cases target with
      | node | context => cases isPlain
      | null | boolean | int | string => exact .pure applied
  | node =>
      exact ⟨_, _, blind.invoke_node method arguments, blind'.invoke_node method arguments',
        .plain rfl⟩
  | context =>
      exact ⟨_, _, blind.invoke_context fun back => (first back).1,
        blind'.invoke_context fun back => (first back).2, .plain rfl⟩

omit blind blind' in
theorem Operand.allValues_relates {arguments arguments' : List (Reading Value)}
    (related : List.Forall₂ (Relates (Resembles context context')) arguments arguments') :
    Relates (Option.Rel (List.Forall₂ (Resembles context context'))) (allValues arguments)
      (allValues arguments') := by
  induction related with
  | nil => exact .pure (.some .nil)
  | cons argument _ hypothesis =>
      refine argument.bind fun value value' alike => ?_
      rw [← alike.isNull_eq]
      split
      · exact .pure .none
      refine hypothesis.bind fun values values' allAlike => ?_
      cases allAlike with
      | none => exact .pure .none
      | some allAlike => exact .pure (.some (.cons alike allAlike))

theorem Operand.invokeWith_relates {target target' : Value}
    (alike : target.Resembles context context' target') {method : Symbol}
    (first : method = .getPrev → context.earlier = [] ∧ context'.earlier = [])
    {arguments arguments' : List (Reading Value)}
    (related : List.Forall₂ (Relates (Resembles context context')) arguments arguments') :
    Relates (Resembles context context') (invokeWith view target method arguments)
      (invokeWith view' target' method arguments') := by
  refine (allValues_relates related).bind fun values values' allAlike => ?_
  cases allAlike with
  | none => exact .pure (.plain rfl)
  | some allAlike => exact View.invoke_relates blind blind' alike first allAlike

theorem Operand.applyFunction_relates {function : Symbol}
    (first : function = .getPrev → context.earlier = [] ∧ context'.earlier = [])
    {arguments arguments' : List (Reading Value)}
    (related : List.Forall₂ (Relates (Resembles context context')) arguments arguments') :
    Relates (Resembles context context') (applyFunction view context function arguments)
      (applyFunction view' context' function arguments') := by
  have ordinary := invokeWith_relates blind blind' .context first related
  rcases related with _ | ⟨left, _ | ⟨right, _ | _⟩⟩
  · exact ordinary
  · exact ordinary
  · cases function
    case equal =>
      refine left.bind fun value value' alike => right.bind fun other other' alike' => .pure ?_
      rw [decide_eq_decide.mpr (alike.eq_iff alike')]
      exact .plain rfl
    case notEqual =>
      refine left.bind fun value value' alike => right.bind fun other other' alike' => .pure ?_
      rw [decide_eq_decide.mpr (not_congr (alike.eq_iff alike'))]
      exact .plain rfl
    all_goals exact ordinary
  · exact ordinary

omit blind blind' in
theorem Operand.onlyBoolean_resembles {value value' : Value}
    (alike : value.Resembles context context' value') :
    Resembles context context' (onlyBoolean value) (onlyBoolean value') := by
  cases alike with
  | plain isPlain =>
      refine .plain ?_
      cases value <;> rfl
  | node | context => exact .plain rfl

theorem Operand.applyMethod_relates {target target' : Value}
    (alike : target.Resembles context context' target') {method : Symbol}
    (first : method = .getPrev → context.earlier = [] ∧ context'.earlier = [])
    {arguments arguments' : List (Reading Value)}
    (related : List.Forall₂ (Relates (Resembles context context')) arguments arguments') :
    Relates (Resembles context context') (applyMethod view target method arguments)
      (applyMethod view' target' method arguments') := by
  have ordinary := invokeWith_relates blind blind' alike first related
  rcases related with _ | ⟨one, _ | ⟨two, _ | _⟩⟩
  · exact ordinary
  · rcases alike with _ | _ | _
    · rcases target with _ | (_ | _) | _ | _ | _ | _
      case boolean.false =>
        cases method
        case and => exact .pure (.plain rfl)
        case or => exact one.bind fun _ _ alike => .pure (onlyBoolean_resembles alike)
        all_goals exact ordinary
      case boolean.true =>
        cases method
        case and => exact one.bind fun _ _ alike => .pure (onlyBoolean_resembles alike)
        case or => exact .pure (.plain rfl)
        all_goals exact ordinary
      all_goals exact ordinary
    · exact ordinary
    · exact ordinary
  · rcases alike with _ | _ | _
    · rcases target with _ | (_ | _) | _ | _ | _ | _
      case boolean.false =>
        cases method
        case ifElse => exact two
        all_goals exact ordinary
      case boolean.true =>
        cases method
        case ifElse => exact one
        all_goals exact ordinary
      all_goals exact ordinary
    · exact ordinary
    · exact ordinary
  · exact ordinary

omit blind blind'

mutual

theorem Operand.eval_relates (blind : view.IsBlindAt context.current)
    (blind' : view'.IsBlindAt context'.current) : (operand : Operand) →
    Context.Oblivious context context' operand.names →
      Relates (Resembles context context') (operand.eval view context)
        (operand.eval view' context')
  | .null _, _ | .boolean _ _, _ | .integer _ _, _ | .text _ _ _, _ => by
      simp only [Operand.eval]
      exact .pure (.plain rfl)
  | .reference name _, oblivious => by
      rw [Operand.names_reference] at oblivious
      simp only [Operand.eval]
      split
      · exact View.valueAttribute_relates blind blind' .context
          fun back => oblivious.first ‹_› (.inl back)
      · exact .pure (.plain rfl)
  | .member object property _, oblivious => by
      rw [Operand.names_member] at oblivious
      have inside := oblivious.mono (List.subset_cons_self _ _)
      simp only [Operand.eval]
      refine (Operand.eval_relates blind blind' object inside).bind fun value value' alike => ?_
      split
      · rw [← alike.isNull_eq]
        split
        · exact .pure (.plain rfl)
        · exact View.valueAttribute_relates blind blind' alike
            fun back => oblivious.first ‹_› (.inl back)
      · exact .pure (.plain rfl)
  | .call function _ arguments _, oblivious => by
      rw [Operand.names_call] at oblivious
      have inside := oblivious.mono (List.subset_cons_self _ _)
      simp only [Operand.eval]
      split
      · exact Operand.applyFunction_relates blind blind'
          (fun back => oblivious.first ‹_› (.inr back))
          (Operand.evalEach_relates blind blind' arguments inside)
      · exact .pure (.plain rfl)
  | .invoke object method _ arguments _, oblivious => by
      rw [Operand.names_invoke] at oblivious
      obtain ⟨insideObject, insideArguments⟩ :=
        (oblivious.mono (List.subset_cons_self _ _)).of_append
      simp only [Operand.eval]
      have inner := Operand.eval_relates blind blind' object insideObject
      refine inner.bind fun target target' alike => ?_
      split
      · rw [← alike.isNull_eq]
        split
        · exact .pure (.plain rfl)
        · exact Operand.applyMethod_relates blind blind' alike
            (fun back => oblivious.first ‹_› (.inr back))
            (Operand.evalEach_relates blind blind' arguments insideArguments)
      · exact .pure (.plain rfl)

theorem Operand.evalEach_relates (blind : view.IsBlindAt context.current)
    (blind' : view'.IsBlindAt context'.current) : (operands : List Operand) →
    Context.Oblivious context context' (Operand.namesOfAll operands) →
      List.Forall₂ (Relates (Resembles context context')) (Operand.evalEach view context operands)
        (Operand.evalEach view' context' operands)
  | [], _ => .nil
  | operand :: operands, oblivious => by
      rw [Operand.namesOfAll_cons] at oblivious
      obtain ⟨one, others⟩ := oblivious.of_append
      exact .cons (Operand.eval_relates blind blind' operand one)
        (Operand.evalEach_relates blind blind' operands others)

end

include blind blind'

theorem Comparison.holds_relates (comparison : Comparison)
    (oblivious : Context.Oblivious context context' comparison.names) :
    Relates Eq (comparison.holds view context) (comparison.holds view' context') := by
  obtain ⟨onLeft, onRight⟩ := oblivious.of_append
  have resembled : ∀ {value value' : Value} (wanted : Bool) (pattern : Option Pattern),
      value.Resembles context context' value' →
        resembles wanted value pattern = resembles wanted value' pattern := by
    intro value value' wanted pattern alike
    cases alike <;> rfl
  refine (Operand.eval_relates blind blind' _ onLeft).bind fun value value' alike => ?_
  split
  · exact .pure (resembled _ _ alike)
  · exact .pure (resembled _ _ alike)
  · exact (Operand.eval_relates blind blind' _ onRight).bind
      fun other other' alike' => .pure (alike.compare_eq alike' _)

/-- Of two nodes of which nothing can be read, a predicate holds for both or for neither,
unless it tells them apart by what was matched before. -/
theorem Predicate.holds_relates (predicate : Predicate)
    (oblivious : Context.Oblivious context context' predicate.names) :
    Relates Eq (predicate.holds view context) (predicate.holds view' context') := by
  induction predicate with
  | compare comparison =>
      rw [Predicate.names_compare] at oblivious
      exact comparison.holds_relates blind blind' oblivious
  | and left right leftRelates rightRelates =>
      rw [Predicate.names_and] at oblivious
      obtain ⟨onLeft, onRight⟩ := oblivious.of_append
      refine (leftRelates onLeft).bind fun holds _ same => ?_
      subst same
      cases holds with
      | true => exact rightRelates onRight
      | false => exact .pure rfl
  | or left right leftRelates rightRelates =>
      rw [Predicate.names_or] at oblivious
      obtain ⟨onLeft, onRight⟩ := oblivious.of_append
      refine (leftRelates onLeft).bind fun holds _ same => ?_
      subst same
      cases holds with
      | true => exact .pure rfl
      | false => exact rightRelates onRight

end Evaluation

end TreeSelector

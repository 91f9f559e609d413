import Mathlib.Data.List.Forall2
import TreeSelector.Proofs.Language.Names

/-!
# What has been checked

An operand that has a type was resolved from the types of the operands in it: there is an
attribute or a method of the schema for its name, and each of its arguments has the type
of a parameter, or none of its own.  So every operand inside it has a type as well, and
every name in it belongs to the vocabulary.
-/

namespace TreeSelector.Typing

/-- A literal null fits every parameter, and any other argument one of its own type. -/
def Suits (argument : Operand) (parameter : Ty) : Prop :=
  ∃ type, typeOf argument = .ok type ∧ (type = none ∨ type = some parameter)

section Inversion

variable {α β : Type}

theorem bind_eq_ok {checked : Except SelectorError α} {next : α → Except SelectorError β}
    {last : β} (accepted : checked >>= next = .ok last) :
    ∃ value, checked = .ok value ∧ next value = .ok last := by
  cases checked with
  | error error => cases accepted
  | ok value => exact ⟨value, rfl, accepted⟩

theorem map_eq_ok {checked : Except SelectorError α} {change : α → β} {last : β}
    (accepted : change <$> checked = .ok last) :
    ∃ value, checked = .ok value ∧ change value = last := by
  cases checked with
  | error error => cases accepted
  | ok value => exact ⟨value, rfl, Except.ok.inj accepted⟩

theorem ownerOf_eq_ok {typed : Typed} {member : Name} {span : Span} {owner : Ty}
    (accepted : ownerOf typed member span = .ok owner) : typed = .ok (some owner) := by
  obtain ⟨_ | type, resolved, same⟩ := bind_eq_ok accepted
  · cases same
  · rw [resolved, Except.ok.inj same]

theorem orError_eq_ok {error : SelectorError} {found : Option Ty} {type : Ty}
    (accepted : orError error found = .ok type) : found = some type := by
  cases found with
  | none => cases accepted
  | some found => rw [Except.ok.inj accepted]

theorem propertyOf?_eq_some {owner type : Ty} {name : Name}
    (found : propertyOf? owner name = some type) :
    ∃ symbol, name.symbol? = some symbol ∧ owner.property? symbol = some type :=
  Option.bind_eq_some_iff.mp found

theorem mem_methodsOf {owner : Ty} {name : Name} {signature : Method}
    (member : signature ∈ methodsOf owner name) :
    name.symbol? = some signature.name ∧ signature ∈ owner.methods := by
  unfold methodsOf at member
  split at member
  · rename_i symbol named
    obtain ⟨declared, same⟩ := List.mem_filter.mp member
    rw [named, of_decide_eq_true same]
    exact ⟨rfl, declared⟩
  · cases member

theorem typesOf_eq_map (arguments : List Operand) :
    typesOf arguments = arguments.map fun argument => (argument, typeOf argument) := by
  induction arguments with
  | nil => rw [typesOf, List.map_nil]
  | cons argument arguments hypothesis => rw [typesOf, hypothesis, List.map_cons]

theorem checkArguments_eq_ok {call : Operand} {parameters : List Ty} {arguments : List Operand}
    (arity : parameters.length = arguments.length)
    (accepted : checkArguments call parameters (typesOf arguments) = .ok ()) :
    List.Forall₂ Suits arguments parameters := by
  induction parameters generalizing arguments with
  | nil =>
      rw [List.eq_nil_of_length_eq_zero arity.symm]
      exact .nil
  | cons parameter parameters hypothesis =>
      cases arguments with
      | nil => cases arity
      | cons argument arguments =>
          rw [typesOf, checkArguments] at accepted
          obtain ⟨type, resolved, others⟩ := bind_eq_ok accepted
          cases type with
          | none => exact .cons ⟨none, resolved, .inl rfl⟩ (hypothesis (Nat.succ.inj arity) others)
          | some found =>
              dsimp only at others
              split at others
              · cases others
              · rename_i same
                have suits : found = parameter := Decidable.not_not.mp same
                exact .cons ⟨some found, resolved, .inr (congrArg some suits)⟩
                  (hypothesis (Nat.succ.inj arity) others)

theorem chooseOverload_eq_ok {call : Operand} {arguments : List (Operand × Typed)}
    {signature : Method} {signatures : List Method} {type : Ty}
    (accepted : chooseOverload call arguments signature signatures = .ok type) :
    ∃ chosen ∈ signature :: signatures,
      checkArguments call chosen.parameters arguments = .ok () ∧ chosen.result = type := by
  induction signatures generalizing signature with
  -- the last overload has to fit, for it is its error that is reported
  | nil =>
      obtain ⟨_, fits, same⟩ := bind_eq_ok accepted
      exact ⟨signature, List.mem_cons_self, fits, Except.ok.inj same⟩
  | cons next signatures hypothesis =>
      rw [chooseOverload] at accepted
      split at accepted
      · exact ⟨signature, List.mem_cons_self, ‹_›, Except.ok.inj accepted⟩
      · obtain ⟨chosen, member, fits, same⟩ := hypothesis accepted
        exact ⟨chosen, List.mem_cons_of_mem _ member, fits, same⟩

/-- A call has the result type of an overload whose parameters its arguments suit. -/
theorem callType_eq_ok {call : Operand} {owner type : Ty} {name : Name}
    {arguments : List Operand} {unknown wrongArity : SelectorError}
    (accepted : callType call (methodsOf owner name) (typesOf arguments) unknown wrongArity =
      .ok type) :
    ∃ signature ∈ owner.methods, name.symbol? = some signature.name ∧
      List.Forall₂ Suits arguments signature.parameters ∧ signature.result = type := by
  unfold callType at accepted
  split at accepted
  · cases accepted
  · split at accepted
    · cases accepted
    · rename_i signature signatures overloads
      obtain ⟨chosen, member, fits, same⟩ := chooseOverload_eq_ok accepted
      rw [← overloads] at member
      obtain ⟨listed, arity⟩ := List.mem_filter.mp member
      obtain ⟨named, declared⟩ := mem_methodsOf listed
      have length : chosen.parameters.length = arguments.length := by
        rw [of_decide_eq_true arity, typesOf_eq_map, List.length_map]
      exact ⟨chosen, declared, named, checkArguments_eq_ok length fits, same⟩

end Inversion

section Operands

variable {type : Option Ty}

theorem typeOf_reference {name : Name} {span : Span}
    (accepted : typeOf (.reference name span) = .ok type) :
    ∃ symbol result, name.symbol? = some symbol ∧ Ty.global.property? symbol = some result ∧
      type = some result := by
  rw [typeOf] at accepted
  obtain ⟨result, found, same⟩ := map_eq_ok accepted
  obtain ⟨symbol, named, declared⟩ := propertyOf?_eq_some (orError_eq_ok found)
  exact ⟨symbol, result, named, declared, same.symm⟩

theorem typeOf_member {object : Operand} {property : Name} {span : Span}
    (accepted : typeOf (.member object property span) = .ok type) :
    ∃ owner symbol result, typeOf object = .ok (some owner) ∧ property.symbol? = some symbol ∧
      owner.property? symbol = some result ∧ type = some result := by
  rw [typeOf] at accepted
  obtain ⟨owner, owned, rest⟩ := bind_eq_ok accepted
  obtain ⟨result, found, same⟩ := map_eq_ok rest
  obtain ⟨symbol, named, declared⟩ := propertyOf?_eq_some (orError_eq_ok found)
  exact ⟨owner, symbol, result, ownerOf_eq_ok owned, named, declared, same.symm⟩

theorem typeOf_call {function : Name} {functionSpan span : Span} {arguments : List Operand}
    (accepted : typeOf (.call function functionSpan arguments span) = .ok type) :
    ∃ signature ∈ Ty.global.methods, function.symbol? = some signature.name ∧
      List.Forall₂ Suits arguments signature.parameters ∧ type = some signature.result := by
  rw [typeOf] at accepted
  obtain ⟨result, found, same⟩ := map_eq_ok accepted
  obtain ⟨signature, declared, named, suit, rfl⟩ := callType_eq_ok found
  exact ⟨signature, declared, named, suit, same.symm⟩

theorem typeOf_invoke {object : Operand} {method : Name} {methodSpan span : Span}
    {arguments : List Operand}
    (accepted : typeOf (.invoke object method methodSpan arguments span) = .ok type) :
    ∃ owner, typeOf object = .ok (some owner) ∧ ∃ signature ∈ owner.methods,
      method.symbol? = some signature.name ∧
        List.Forall₂ Suits arguments signature.parameters ∧ type = some signature.result := by
  rw [typeOf] at accepted
  obtain ⟨owner, owned, rest⟩ := bind_eq_ok accepted
  obtain ⟨result, found, same⟩ := map_eq_ok rest
  obtain ⟨signature, declared, named, suit, rfl⟩ := callType_eq_ok found
  exact ⟨owner, ownerOf_eq_ok owned, signature, declared, named, suit, same.symm⟩

/-- No operand is of a type that values do not have. -/
theorem mem_valueTypes_of_typeOf {operand : Operand} {result : Ty}
    (accepted : typeOf operand = .ok (some result)) : result ∈ Ty.valueTypes := by
  have ofProperty : ∀ owner symbol result, Ty.property? owner symbol = some result →
      result ∈ Ty.valueTypes := by
    intro owner symbol result declared
    obtain ⟨property, found, rfl⟩ := Option.map_eq_some_iff.mp declared
    have all : ∀ owner, ∀ property ∈ Ty.properties owner, property.type ∈ Ty.valueTypes := by
      intro owner
      cases owner <;> decide
    exact all owner property (List.mem_of_find?_eq_some found)
  have ofMethod : ∀ owner, ∀ signature ∈ Ty.methods owner,
      signature.result ∈ Ty.valueTypes := by
    intro owner
    cases owner <;> decide
  cases operand with
  | null | boolean | integer | text =>
      rw [typeOf] at accepted
      cases accepted
      all_goals decide
  | reference name span =>
      obtain ⟨symbol, result, _, declared, ⟨⟩⟩ := typeOf_reference accepted
      exact ofProperty _ _ _ declared
  | member object property span =>
      obtain ⟨owner, symbol, result, _, _, declared, ⟨⟩⟩ := typeOf_member accepted
      exact ofProperty _ _ _ declared
  | call function functionSpan arguments span =>
      obtain ⟨signature, declared, _, _, ⟨⟩⟩ := typeOf_call accepted
      exact ofMethod _ _ declared
  | invoke object method methodSpan arguments span =>
      obtain ⟨owner, _, signature, declared, _, _, ⟨⟩⟩ := typeOf_invoke accepted
      exact ofMethod _ _ declared

mutual

theorem typeOf_parts : (operand : Operand) → ∀ {type}, typeOf operand = .ok type →
    ∀ part ∈ operand.parts, ∃ type, typeOf part = .ok type
  | .null _, _, accepted | .boolean _ _, _, accepted | .integer _ _, _, accepted
  | .text _ _ _, _, accepted | .reference _ _, _, accepted => by
      intro part member
      rw [Operand.parts, List.mem_singleton] at member
      exact member ▸ ⟨_, accepted⟩
  | .member object _ _, _, accepted => by
      intro part member
      obtain ⟨owner, _, _, owned, _⟩ := typeOf_member accepted
      rw [Operand.parts] at member
      rcases List.mem_cons.mp member with rfl | inside
      · exact ⟨_, accepted⟩
      · exact typeOf_parts object owned part inside
  | .call _ _ arguments _, _, accepted => by
      intro part member
      obtain ⟨signature, _, _, suit, _⟩ := typeOf_call accepted
      rw [Operand.parts] at member
      rcases List.mem_cons.mp member with rfl | inside
      · exact ⟨_, accepted⟩
      · exact typeOf_partsOfAll arguments suit part inside
  | .invoke object _ _ arguments _, _, accepted => by
      intro part member
      obtain ⟨owner, owned, signature, _, _, suit, _⟩ := typeOf_invoke accepted
      rw [Operand.parts] at member
      rcases List.mem_cons.mp member with rfl | inside
      · exact ⟨_, accepted⟩
      · rcases List.mem_append.mp inside with inObject | inArguments
        · exact typeOf_parts object owned part inObject
        · exact typeOf_partsOfAll arguments suit part inArguments

theorem typeOf_partsOfAll : (operands : List Operand) → ∀ {parameters : List Ty},
    List.Forall₂ Suits operands parameters →
      ∀ part ∈ Operand.partsOfAll operands, ∃ type, typeOf part = .ok type
  | [], _, _ => nofun
  | operand :: operands, _, .cons ⟨_, accepted, _⟩ others => by
      intro part member
      rw [Operand.partsOfAll] at member
      rcases List.mem_append.mp member with first | later
      · exact typeOf_parts operand accepted part first
      · exact typeOf_partsOfAll operands others part later

end

theorem symbol?_of_mem_names {operand : Operand} (accepted : typeOf operand = .ok type) :
    ∀ name ∈ operand.names, ∃ symbol, name.symbol? = some symbol := by
  intro name member
  obtain ⟨part, inside, own⟩ := List.mem_filterMap.mp member
  obtain ⟨type, typed⟩ := typeOf_parts operand accepted part inside
  cases part with
  | null | boolean | integer | text => cases own
  | reference name' span =>
      obtain ⟨symbol, _, named, _⟩ := typeOf_reference typed
      exact ⟨symbol, Option.some.inj own ▸ named⟩
  | member object property span =>
      obtain ⟨_, symbol, _, _, named, _⟩ := typeOf_member typed
      exact ⟨symbol, Option.some.inj own ▸ named⟩
  | call function functionSpan arguments span =>
      obtain ⟨_, _, named, _⟩ := typeOf_call typed
      exact ⟨_, Option.some.inj own ▸ named⟩
  | invoke object method methodSpan arguments span =>
      obtain ⟨_, _, _, _, named, _⟩ := typeOf_invoke typed
      exact ⟨_, Option.some.inj own ▸ named⟩

end Operands

section Comparisons

/-- The sides of an accepted comparison have types, the same one where both have one. -/
theorem checkComparison_eq_ok {comparison : Comparison}
    (accepted : checkComparison comparison = .ok ()) :
    ∃ left right, typeOf comparison.left = .ok left ∧ typeOf comparison.right = .ok right ∧
      (left = none ∨ right = none ∨ left = right) := by
  unfold checkComparison at accepted
  dsimp only at accepted
  split at accepted
  · cases accepted
  · obtain ⟨left, leftTyped, rest⟩ := bind_eq_ok accepted
    obtain ⟨right, rightTyped, rest⟩ := bind_eq_ok rest
    refine ⟨left, right, leftTyped, rightTyped, ?_⟩
    rcases left with _ | left
    · exact .inl rfl
    rcases right with _ | right
    · exact .inr (.inl rfl)
    dsimp only at rest
    split at rest
    · cases rest
    · rename_i same
      exact .inr (.inr (congrArg some (Decidable.not_not.mp same)))

theorem checkAll_eq_ok {comparisons : List Comparison} (accepted : checkAll comparisons = .ok ()) :
    ∀ comparison ∈ comparisons, checkComparison comparison = .ok () := by
  induction comparisons with
  | nil => exact nofun
  | cons comparison comparisons hypothesis =>
      obtain ⟨_, first, others⟩ := bind_eq_ok accepted
      exact List.forall_mem_cons.mpr ⟨first, hypothesis others⟩

end Comparisons

end TreeSelector.Typing

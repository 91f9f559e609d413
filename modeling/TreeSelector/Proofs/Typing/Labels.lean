import TreeSelector.Proofs.Grammar.Faults
import TreeSelector.Proofs.Grammar.SelectorSpans
import TreeSelector.Typing

/-!
# What the label of an error points at

An error of a source is shown beside the text under its span.  The types of a chain are checked
piece by piece, and what is wrong with a piece is marked where the piece stands; so whether a
source is refused for its form, for what it says or for its types, the label is in the source.
-/

namespace TreeSelector

open Grammar

namespace Typing

variable {source : List Char}

/-- Nothing is wrong, or what is wrong is marked in the source. -/
def Marked {α : Type} (source : List Char) (result : Except SelectorError α) : Prop :=
  Checked.Sound source (fun _ => True) result

theorem Marked.bind {α β : Type} {result : Except SelectorError α}
    {next : α → Except SelectorError β} (first : Marked source result)
    (second : ∀ value, Marked source (next value)) : Marked source (result >>= next) :=
  Checked.Sound.bind first fun value _ => second value

theorem Marked.of_bind {α β : Type} {result : Except SelectorError α}
    {next : α → Except SelectorError β} (both : Marked source (result >>= next)) :
    Marked source result := by
  cases result with
  | error error => exact both
  | ok value => trivial

theorem marks_of_faithful {operand : Operand} (faithful : operand.Faithful source)
    {error : SelectorError} (place : error.span = operand.span) (silent : error.quoted? = none) :
    error.Marks source := by
  obtain ⟨text, covers, some⟩ := faithful.covers
  refine ⟨text, place ▸ covers, some, fun quoted found => ?_⟩
  rw [silent] at found
  cases found

theorem marks_of_name {name : Name} {span : Span}
    (faithful : (Operand.reference name span).Faithful source) {error : SelectorError}
    (place : error.span = span) (quotes : error.quoted? = some name.spelling) :
    error.Marks source := by
  cases faithful with
  | @intro _ text covers some named =>
      refine ⟨text, place ▸ covers, some, fun quoted found => ?_⟩
      obtain rfl := Option.some.inj (quotes.symm.trans found)
      exact named name span rfl

theorem marked_orError {error : SelectorError} (marks : error.Marks source) (type : Option Ty) :
    Marked source (orError error type) := by
  cases type with
  | none => exact marks
  | some type => trivial

theorem marked_unless {error : SelectorError} (marks : error.Marks source) (wrong : Bool) :
    Marked source (if wrong then throw error else pure ()) := by
  cases wrong with
  | false => trivial
  | true => exact marks

section Calls

variable {call : Operand} {arguments : List (Operand × Typed)}
  (all : ∀ argument ∈ arguments, argument.1.Faithful source ∧ Marked source argument.2)

include all

theorem marked_checkArguments (parameters : List Ty) :
    Marked source (checkArguments call parameters arguments) := by
  induction parameters generalizing arguments with
  | nil => cases arguments <;> trivial
  | cons parameter parameters hypothesis =>
      cases arguments with
      | nil => trivial
      | cons argument arguments =>
          obtain ⟨here, others⟩ := List.forall_mem_cons.mp all
          obtain ⟨argument, typed⟩ := argument
          refine here.2.bind fun found => ?_
          cases found with
          | none => exact hypothesis others
          | some found =>
              dsimp only
              split
              · exact marks_of_faithful here.1 rfl rfl
              · exact hypothesis others

theorem marked_chooseOverload (method : Method) (methods : List Method) :
    Marked source (chooseOverload call arguments method methods) := by
  induction methods generalizing method with
  | nil => exact (marked_checkArguments all _).bind fun _ => trivial
  | cons next methods hypothesis =>
      rw [chooseOverload]
      cases checkArguments call method.parameters arguments with
      | ok _ => trivial
      | error _ => exact hypothesis next

theorem marked_callType {named : List Method} {unknown wrongArity : SelectorError}
    (marks : unknown.Marks source) (marks' : wrongArity.Marks source) :
    Marked source (callType call named arguments unknown wrongArity) := by
  unfold callType
  split
  · exact marks
  · split
    · exact marks'
    · exact marked_chooseOverload all _ _

end Calls

/-- What is wrong with the types in an operand is marked inside it. -/
theorem marked_typeOf {operand : Operand} (faithful : operand.Faithful source) :
    Marked source (typeOf operand) := by
  induction faithful with
  | @intro operand text covers some named again children abreast hypothesis =>
      have faithful := Operand.Faithful.intro covers some named again children abreast
      have arguments : ∀ listed : List Operand, (∀ child ∈ listed, child ∈ operand.children) →
          ∀ argument ∈ typesOf listed, argument.1.Faithful source ∧ Marked source argument.2 := by
        intro listed among
        induction listed with
        | nil => exact nofun
        | cons child listed hypothesis' =>
            obtain ⟨here, others⟩ := List.forall_mem_cons.mp among
            rw [typesOf]
            exact List.forall_mem_cons.mpr ⟨⟨children child here, hypothesis child here⟩,
              hypothesis' others⟩
      cases operand with
      | null | boolean | integer | text => trivial
      | reference name span =>
          rw [typeOf]
          exact (marked_orError (marks_of_name faithful rfl rfl) _).bind fun _ => trivial
      | member object property span =>
          rw [typeOf]
          refine .bind (.bind (hypothesis object (by simp [Operand.children])) fun type => ?_)
            fun owner => ?_
          · cases type with
            | none => exact marks_of_faithful faithful rfl rfl
            | some type => trivial
          · exact (marked_orError (marks_of_faithful faithful rfl rfl) _).bind fun _ => trivial
      | call function functionSpan listed span =>
          rw [typeOf]
          refine Marked.bind (marked_callType (arguments listed fun _ => List.mem_cons_of_mem _)
            ?_ ?_) fun _ => trivial
          · exact marks_of_name (children _ List.mem_cons_self) rfl rfl
          · exact marks_of_faithful faithful rfl rfl
      | invoke object method methodSpan listed span =>
          have callee : Marked source (typeOf (.member object method methodSpan)) :=
            hypothesis _ List.mem_cons_self
          rw [typeOf] at callee
          rw [typeOf]
          refine callee.of_bind.bind fun owner => Marked.bind (marked_callType
            (arguments listed fun _ => List.mem_cons_of_mem _) ?_ ?_) fun _ => trivial
          · exact marks_of_faithful (children _ List.mem_cons_self) rfl rfl
          · exact marks_of_faithful faithful rfl rfl

/-- What is wrong with the types of a comparison is marked inside it. -/
theorem marked_checkComparison {comparison : Comparison}
    (faithful : comparison.Faithful source) : Marked source (checkComparison comparison) := by
  have marks : ∀ {error : SelectorError}, error.span = comparison.span → error.quoted? = none →
      error.Marks source := by
    intro error place silent
    obtain ⟨text, covers, some, _⟩ := faithful.written
    refine ⟨text, place ▸ covers, some, fun quoted found => ?_⟩
    rw [silent] at found
    cases found
  unfold checkComparison
  dsimp only
  split
  · exact marks rfl rfl
  · refine .bind (marked_typeOf faithful.left) fun left => .bind (marked_typeOf faithful.right)
      fun right => ?_
    split
    · split
      · exact marks rfl rfl
      · split
        · exact marked_unless (marks rfl rfl) _
        · trivial
    · split
      · exact marked_unless (marks rfl rfl) _
      · trivial

theorem marked_checkAll {comparisons : List Comparison}
    (all : ∀ comparison ∈ comparisons, comparison.Faithful source) :
    Marked source (checkAll comparisons) := by
  induction comparisons with
  | nil => trivial
  | cons comparison comparisons hypothesis =>
      obtain ⟨here, others⟩ := List.forall_mem_cons.mp all
      exact (marked_checkComparison here).bind fun _ => hypothesis others

end Typing

/-- The byte that is marked for an unexpected one is in the source, or there is none. -/
theorem Unexpected.span_within (fault : Unexpected) (within : fault.offset ≤ fault.sourceLength) :
    fault.span.start ≤ fault.span.stop ∧ fault.span.stop ≤ fault.sourceLength ∧
      (0 < fault.sourceLength → fault.span.start < fault.span.stop) := by
  unfold Unexpected.span
  split
  · exact ⟨by simp, by assumption, fun _ => by simp⟩
  · split
    · exact ⟨by simp, within, fun _ => by dsimp only; omega⟩
    · exact ⟨le_rfl, Nat.zero_le _, fun _ => by omega⟩

theorem Text.byteLength_pos {text : List Char} (some : text ≠ []) : 0 < Text.byteLength text := by
  cases text with
  | nil => exact absurd rfl some
  | cons char text => exact Nat.add_pos_left char.utf8Size_pos _

namespace Chain

theorem marked_checkTypes {source : List Char} {chain : Chain} (faithful : chain.Faithful source) :
    Typing.Marked source chain.checkTypes := by
  refine Typing.marked_checkAll fun comparison listed => ?_
  obtain ⟨segment, among, within⟩ := List.mem_flatMap.mp listed
  exact (faithful.segments segment among).comparisons comparison within

/-- A source is refused for its form, or the error marks some of its text. -/
theorem unexpected_or_marks {source : String} {error : SelectorError}
    (refused : Chain.parse source = .error error ∨
      ∃ chain, Chain.parse source = .ok chain ∧ chain.checkTypes = .error error) :
    (∃ fault, error = .unexpected fault ∧ fault.sourceLength = Text.byteLength source.toList ∧
      fault.offset ≤ fault.sourceLength) ∨ error.Marks source.toList := by
  rcases refused_or_sound source with form | sound
  · have parsed := parse_eq source
    rw [form] at parsed
    rcases refused with refused | ⟨chain, accepted, _⟩
    · obtain ⟨fault, shape, offset, length, _⟩ :=
        exists_unexpectedIn source.toList (Grammar.read source.toList).trace
      obtain ⟨before, after, _, split, place, _⟩ := viable_furthest source.toList
      refine .inl ⟨fault, ?_, length, ?_⟩
      · exact Except.error.inj (refused.symm.trans (parsed.trans (congrArg Except.error shape)))
      · rw [length, offset, ← place, split, Text.byteLength_append]
        exact Nat.le_add_right _ _
    · cases parsed.symm.trans accepted
  · rcases refused with refused | ⟨chain, parsed, refused⟩
    · rw [refused] at sound
      exact .inr sound
    · rw [parsed] at sound
      have marked := marked_checkTypes sound
      rw [refused] at marked
      exact .inr marked

/-- The label of an error is in the source, and not empty unless the source is.  If the source is
not refused for its form, the label is that of a text, which is what the error quotes, if it
quotes anything. -/
theorem label_of_refused {source : String} {error : SelectorError}
    (refused : Chain.parse source = .error error ∨
      ∃ chain, Chain.parse source = .ok chain ∧ chain.checkTypes = .error error) :
    error.span.start ≤ error.span.stop ∧ error.span.stop ≤ Text.byteLength source.toList ∧
      (source ≠ "" → error.span.start < error.span.stop) ∧
      ((∀ fault, error ≠ .unexpected fault) → ∃ text, error.span.Covers source.toList text ∧
        ∀ quoted ∈ error.quoted?, text = quoted.toList) := by
  rcases unexpected_or_marks refused with ⟨fault, rfl, length, within⟩ | ⟨text, covers, some, quotes⟩
  · obtain ⟨order, inside, positive⟩ := fault.span_within within
    refine ⟨order, length ▸ inside, fun filled => positive ?_, fun other => absurd rfl (other fault)⟩
    rw [length]
    exact Text.byteLength_pos fun nothing => filled (String.toList_eq_nil_iff.mp nothing)
  · have positive := Text.byteLength_pos some
    obtain ⟨before, after, split, start, stop⟩ := id covers
    refine ⟨by omega, ?_, fun _ => by omega, fun _ => ⟨text, covers, quotes⟩⟩
    rw [split, Text.byteLength_append, Text.byteLength_append]
    omega

/-- A source with an escape that has letters in the place of its digits. -/
def misspelledSource : String := "[vid=\"é\\xüé\"]"

theorem label_of_refused_misspelledSource : ∃ error, Chain.parse misspelledSource = .error error ∧
    error.span.start ≤ error.span.stop ∧
      error.span.stop ≤ Text.byteLength misspelledSource.toList ∧
      (misspelledSource ≠ "" → error.span.start < error.span.stop) ∧
      ((∀ fault, error ≠ .unexpected fault) → ∃ text,
        error.span.Covers misspelledSource.toList text ∧
          ∀ quoted ∈ error.quoted?, text = quoted.toList) := by
  have refused : (Chain.parse misspelledSource).toOption.isSome = false := by decide +kernel
  cases parsed : Chain.parse misspelledSource with
  | error error => exact ⟨error, rfl, label_of_refused (.inl parsed)⟩
  | ok chain =>
      rw [parsed] at refused
      cases refused

end Chain

end TreeSelector

import TreeSelector.Grammar.Selector
import TreeSelector.Proofs.Grammar.Reads
import TreeSelector.Proofs.Grammar.Tokens

/-!
# Syntax as it is read

Not every piece of syntax can be read from a source: names have to be spelled like
names, calls are made of names and members, patterns stand on the right of pattern
relations only.  Whatever the readers accept is canonical in this sense.
-/

namespace TreeSelector

open Grammar (Checked withPattern)
open Grammar.Token (IsName IsIdentifier)

/-- A name that is spelled as described and stands for the symbol so spelled, if any. -/
structure Name.IsWritten (shape : List Char → Prop) (name : Name) : Prop where
  shaped : shape name.spelling.toList
  faithful : name = .ofSpelling name.spelling

namespace Operand

mutual

/-- Operands that can be read from a source, the right side of a pattern relation apart. -/
def IsCanonical : Operand → Prop
  | null _ | boolean _ _ | integer _ _ => True
  | text _ pattern _ => pattern = none
  | reference name _ => name.IsWritten IsIdentifier
  | member object property _ => object.IsCanonical ∧ property.IsWritten IsName
  | call function _ arguments _ => function.IsWritten IsIdentifier ∧ AllCanonical arguments
  | invoke object method _ arguments _ =>
      object.IsCanonical ∧ method.IsWritten IsName ∧ AllCanonical arguments

def AllCanonical : List Operand → Prop
  | [] => True
  | operand :: operands => operand.IsCanonical ∧ AllCanonical operands

end

theorem allCanonical_iff {operands : List Operand} :
    AllCanonical operands ↔ ∀ operand ∈ operands, operand.IsCanonical := by
  induction operands with
  | nil => simp [AllCanonical]
  | cons operand operands hypothesis => simp [AllCanonical, hypothesis]

end Operand

/-- A comparison that can be read: its right side got its pattern from its relation. -/
def Comparison.IsCanonical (comparison : Comparison) : Prop :=
  comparison.left.IsCanonical ∧
    ∃ right : Operand, right.IsCanonical ∧
      withPattern comparison.relation right = .ok comparison.right

namespace Predicate

def IsCanonical : Predicate → Prop
  | compare comparison => comparison.IsCanonical
  | and left right | or left right => left.IsCanonical ∧ right.IsCanonical

end Predicate

/-- The bounds of the window are in order. -/
def Window.IsOrdered (window : Window) : Prop := window.max.any (· < window.min) = false

structure Segment.IsCanonical (segment : Segment) : Prop where
  predicate : segment.predicate.IsCanonical
  window : ∀ window ∈ segment.window, window.IsOrdered

namespace Chain

/-- Whether one of the segments is marked. -/
def isTargeted (chain : Chain) : Bool := chain.segments.any (·.target)

/-- Chains that can be read: the segment written first has no window, and no two
segments are marked. -/
def IsCanonical : Chain → Prop
  | last segment => segment.IsCanonical ∧ segment.window = none
  | link segment _ rest =>
      segment.IsCanonical ∧ rest.IsCanonical ∧ (rest.isTargeted && segment.target) = false

end Chain

namespace Grammar

open Reader

/-- If there is no error, the value has the property. -/
def Checked.Good {α : Type} (property : α → Prop) (checked : Checked α) : Prop :=
  ∀ value, checked = .ok value → property value

namespace Checked

variable {α β : Type} {property : α → Prop} {final : β → Prop}

theorem Good.ok {value : α} (holds : property value) : Good property (.ok value) := by
  intro value' same
  obtain rfl := Except.ok.inj same
  exact holds

theorem Good.error {error : SelectorError} : Good property (.error error) := nofun

theorem Good.bind {checked : Checked α} {next : α → Checked β} (first : checked.Good property)
    (second : ∀ value, property value → (next value).Good final) :
    Good final (checked >>= next) := by
  cases checked with
  | error error => exact .error
  | ok value => exact second value (first value rfl)

theorem Good.map {checked : Checked α} {change : α → β}
    (good : checked.Good fun value => final (change value)) :
    Good final (change <$> checked) := by
  cases checked with
  | error error => exact .error
  | ok value => exact .ok (good value rfl)

theorem Good.all {pieces : List (Checked α)} (good : ∀ piece ∈ pieces, piece.Good property) :
    Good (fun values => ∀ value ∈ values, property value) (all pieces) := by
  induction pieces with
  | nil => exact .ok (by simp)
  | cons piece pieces hypothesis =>
      obtain ⟨here, others⟩ := List.forall_mem_cons.mp good
      refine here.bind fun value holds => ?_
      refine (hypothesis others).bind fun values all => .ok ?_
      exact List.forall_mem_cons.mpr ⟨holds, all⟩

end Checked

section Operands

theorem isWritten_ofSpelling {shape : List Char → Prop} {lexeme : Lexeme}
    (shaped : shape lexeme.text) : (Name.ofSpelling lexeme.content).IsWritten shape := by
  have spelled := Name.spelling_ofSpelling lexeme.content
  refine ⟨?_, ?_⟩
  · rw [spelled, Lexeme.content, String.toList_ofList]
    exact shaped
  · rw [spelled]

theorem integerOf_good (lexeme : Lexeme) : (integerOf lexeme).Good Operand.IsCanonical := by
  unfold integerOf
  split
  · exact .ok trivial
  · exact .error

theorem textOf_good (lexeme : Lexeme) : (textOf lexeme).Good Operand.IsCanonical := by
  unfold textOf
  split
  · exact .ok rfl
  · exact .error

theorem primary_yields : primary.Yields (Checked.Good Operand.IsCanonical) := by
  have token : ∀ (name : Rule) (scanner : Scanner) (read : Lexeme → Checked Operand),
      (∀ lexeme, (read lexeme).Good Operand.IsCanonical) →
        (read <$> Reader.token name scanner).Yields (Checked.Good Operand.IsCanonical) :=
    fun name scanner read good => .map fun _ lexeme _ _ => good lexeme
  refine .orElse (token _ _ _ fun _ => .ok trivial) ?_
  refine .orElse (token _ _ _ fun _ => .ok trivial) ?_
  refine .orElse (token _ _ _ integerOf_good) ?_
  refine .orElse (token _ _ _ textOf_good) ?_
  refine .map ?_
  have cut : (Reader.token .identifier Token.identifier).Yields
      fun lexeme => IsIdentifier lexeme.text :=
    .token fun _ _ _ cut => Token.isIdentifier_of_identifier cut
  exact fun cursor lexeme behind success =>
    .ok (isWritten_ofSpelling (cut cursor lexeme behind success))

/-- Suffixes that can be read. -/
def Suffix.IsCanonical : Suffix → Prop
  | member property _ => property.IsWritten IsName
  | call arguments _ => arguments.Good Operand.AllCanonical

theorem applyTo_good {object : Operand} {suffix : Suffix} (canonical : object.IsCanonical)
    (proper : suffix.IsCanonical) : (suffix.applyTo object).Good Operand.IsCanonical := by
  cases suffix with
  | member property span => exact .ok ⟨canonical, proper⟩
  | call arguments span =>
      refine Checked.Good.bind proper fun values all => ?_
      cases object with
      | reference name nameSpan => exact .ok ⟨canonical, all⟩
      | member owner method methodSpan => exact .ok ⟨canonical.1, canonical.2, all⟩
      | _ => exact .error

theorem foldlM_applyTo_good {object : Operand} {suffixes : List Suffix}
    (canonical : object.IsCanonical) (proper : ∀ suffix ∈ suffixes, suffix.IsCanonical) :
    Checked.Good Operand.IsCanonical (suffixes.foldlM Suffix.applyTo object) := by
  induction suffixes generalizing object with
  | nil => exact .ok canonical
  | cons suffix suffixes hypothesis =>
      obtain ⟨here, others⟩ := List.forall_mem_cons.mp proper
      rw [List.foldlM_cons]
      exact (applyTo_good canonical here).bind fun value holds => hypothesis holds others

theorem memberSuffix_yields : memberSuffix.Yields Suffix.IsCanonical := by
  have cut : (Reader.token .memberName Token.name).Yields fun lexeme => IsName lexeme.text :=
    .token fun _ _ _ cut => (Token.isName_of_name cut).1
  have dotted := Yields.bind (.any (literal ".")) fun _ _ =>
    Yields.bind (.any blanks) fun _ _ => cut
  exact Yields.bind (.placed (.rule dotted)) fun found holds =>
    .pure (isWritten_ofSpelling holds)

theorem commaSeparated_yields {α : Type} {item : Reader α} {property : α → Prop}
    (yields : item.Yields property) :
    (commaSeparated item).Yields fun values => ∀ value ∈ values, property value := by
  have further := Yields.many (Yields.bind (.any (literal ",")) fun _ _ =>
    .bind (.any blanks) fun _ _ => yields)
  refine yields.bind fun first holds => .bind (.any _) fun _ _ => ?_
  exact Yields.bind further fun others all => .pure (List.forall_mem_cons.mpr ⟨holds, all⟩)

theorem callSuffix_yields {argument : Reader (Checked Operand)}
    (yields : argument.Yields (Checked.Good Operand.IsCanonical)) :
    (callSuffix argument).Yields Suffix.IsCanonical := by
  let proper : List (Checked Operand) → Prop := fun arguments =>
    ∀ argument ∈ arguments, argument.Good Operand.IsCanonical
  have given : ∀ arguments : Option (List (Checked Operand)),
      (∀ values ∈ arguments, proper values) → proper (arguments.getD []) := by
    intro arguments holds
    cases arguments with
    | none => exact fun argument member => nomatch member
    | some arguments => exact holds arguments rfl
  have enclosed := Yields.bind (.any (literal "(")) fun _ _ =>
    Yields.bind (.any blanks) fun _ _ =>
      (commaSeparated_yields yields).optional.bind fun arguments holds =>
        Yields.bind (.any blanks) fun _ _ => Yields.bind (.any (literal ")")) fun _ _ =>
          .pure (given arguments holds)
  refine Yields.bind (.placed (.rule enclosed)) fun found holds => .pure fun values all => ?_
  exact Operand.allCanonical_iff.mpr (Checked.Good.all holds values all)

theorem operand_yields (depth : Nat) :
    (operand depth).Yields (Checked.Good Operand.IsCanonical) := by
  induction depth with
  | zero => exact .fail
  | succ depth hypothesis =>
      refine Yields.rule (primary_yields.bind fun start good => .bind (.any _) fun _ _ => ?_)
      refine Yields.bind (memberSuffix_yields.orElse (callSuffix_yields hypothesis)).many
        fun suffixes proper => .pure ?_
      exact good.bind fun object canonical => foldlM_applyTo_good canonical proper

end Operands

section Predicates

theorem comparison_yields (depth : Nat) :
    (comparison depth).Yields (Checked.Good Predicate.IsCanonical) := by
  have sides := (operand_yields depth).bind fun left goodLeft =>
    Yields.bind (.any blanks) fun _ _ =>
      Yields.bind (.any (token .relation Token.relation)) fun relation _ =>
        Yields.bind (.any blanks) fun _ _ =>
          (operand_yields depth).bind fun right goodRight =>
            show Yields (pure (left, (Relation.ofSpelling? relation.content).getD .equal, right))
              (fun found => found.1.Good Operand.IsCanonical ∧
                found.2.2.Good Operand.IsCanonical) from .pure ⟨goodLeft, goodRight⟩
  refine Yields.bind (.placed (.rule sides)) fun found holds => .pure ?_
  obtain ⟨⟨left, relation, right⟩, span⟩ := found
  refine holds.1.bind fun left canonical => ?_
  refine holds.2.bind fun right canonical' => ?_
  cases patterned : withPattern relation right with
  | error error => exact .error
  | ok right' => exact .ok ⟨canonical, right, canonical', patterned⟩

theorem combineFrom_isCanonical {pending : Option Predicate} {current : Predicate}
    {others : List (Junction × Predicate)} (waiting : ∀ left ∈ pending, left.IsCanonical)
    (canonical : current.IsCanonical) (all : ∀ other ∈ others, other.2.IsCanonical) :
    (combineFrom pending current others).IsCanonical := by
  have joined : ∀ current : Predicate, current.IsCanonical →
      ((pending.map (Predicate.or · current)).getD current).IsCanonical := by
    intro current canonical
    cases pending with
    | none => exact canonical
    | some left => exact ⟨waiting left rfl, canonical⟩
  induction others generalizing pending current with
  | nil => exact joined current canonical
  | cons other others hypothesis =>
      obtain ⟨here, rest⟩ := List.forall_mem_cons.mp all
      obtain ⟨junction, next⟩ := other
      cases junction with
      | conjunction => exact hypothesis waiting ⟨canonical, here⟩ rest joined
      | disjunction =>
          have both := joined current canonical
          refine hypothesis (fun left member => Option.some.inj member ▸ both) here rest ?_
          exact fun next proper => ⟨both, proper⟩

/-- A predicate in parentheses. -/
def group (inner : Reader (Checked Predicate)) : Reader (Checked Predicate) := do
  let _ ← literal "("
  let _ ← blanks
  let predicate ← inner
  let _ ← blanks
  let _ ← literal ")"
  return predicate

theorem predicateAround_yields {inner : Reader (Checked Predicate)} (depth : Nat)
    (yields : inner.Yields (Checked.Good Predicate.IsCanonical)) :
    (predicateAround depth inner).Yields (Checked.Good Predicate.IsCanonical) := by
  have grouped : (group inner).Yields (Checked.Good Predicate.IsCanonical) :=
    .bind (.any _) fun _ _ => .bind (.any _) fun _ _ => yields.bind fun _ good =>
      .bind (.any _) fun _ _ => .bind (.any _) fun _ _ => .pure good
  have term : ((group inner).orElse (comparison depth)).Yields (Checked.Good Predicate.IsCanonical) :=
    grouped.orElse (comparison_yields depth)
  have joined := Yields.bind (.any junction) fun junction _ =>
    Yields.bind (.any blanks) fun _ _ => term.bind fun next good =>
      show Yields (pure (junction, next)) (fun found => found.2.Good Predicate.IsCanonical) from
        .pure good
  refine .rule (term.bind fun first good => .bind (.any _) fun _ _ => ?_)
  refine Yields.bind joined.many fun others all => .pure ?_
  refine good.bind fun first canonical => ?_
  have pieces : ∀ piece ∈ others.map fun other => (other.1, ·) <$> other.2,
      piece.Good fun other : Junction × Predicate => other.2.IsCanonical := by
    intro piece member
    obtain ⟨other, listed, rfl⟩ := List.mem_map.mp member
    exact .map (all other listed)
  exact (Checked.Good.all pieces).bind fun others proper =>
    .ok (combineFrom_isCanonical (fun _ member => nomatch member) canonical proper)

theorem predicate_yields (depth nesting : Nat) :
    (predicate depth nesting).Yields (Checked.Good Predicate.IsCanonical) := by
  induction nesting with
  | zero => exact .fail
  | succ nesting hypothesis => exact predicateAround_yields depth hypothesis

end Predicates

section Segments

theorem checkedWindow_good (written : String) (span : Span) (bounds : Bounds) :
    (checkedWindow written span bounds).Good Window.IsOrdered := by
  unfold checkedWindow
  split
  · exact .error
  · split
    · exact .error
    · rename_i ordered
      exact .ok (Bool.eq_false_iff.mpr ordered)

theorem window_yields : window.Yields (Checked.Good Window.IsOrdered) :=
  Yields.bind (.any _) fun found _ => .pure (checkedWindow_good _ _ found.1)

theorem segment_yields (depth : Nat) :
    (segment depth).Yields (Checked.Good Segment.IsCanonical) := by
  have parts := Yields.bind (.any (optional (token .target (Token.exactly "@")))) fun target _ =>
    Yields.bind (.any blanks) fun _ _ => Yields.bind (.any (literal "[")) fun _ _ =>
      Yields.bind (.any blanks) fun _ _ => (predicate_yields depth depth).bind fun predicate good =>
        Yields.bind (.any blanks) fun _ _ => Yields.bind (.any (literal "]")) fun _ _ =>
          Yields.bind (.any blanks) fun _ _ => window_yields.optional.bind fun window ordered =>
            show Yields (pure (target.isSome, predicate, window))
              (fun found => found.2.1.Good Predicate.IsCanonical ∧
                ∀ window ∈ found.2.2, window.Good Window.IsOrdered) from .pure ⟨good, ordered⟩
  refine Yields.bind (.placed (.rule parts)) fun found holds => .pure ?_
  obtain ⟨⟨target, predicate, window⟩, span⟩ := found
  refine holds.1.bind fun predicate canonical => ?_
  cases window with
  | none => exact .ok ⟨canonical, fun window member => nomatch member⟩
  | some window =>
      refine Checked.Good.bind (holds.2 window rfl) fun window ordered => .ok ⟨canonical, ?_⟩
      exact fun other member => Option.some.inj member ▸ ordered

theorem writtenSelector_yields (depth : Nat) :
    (writtenSelector depth).Yields fun written => written.1.Good Segment.IsCanonical ∧
      ∀ other ∈ written.2, other.2.Good Segment.IsCanonical := by
  have joined := Yields.bind (.any connector) fun connector _ =>
    Yields.bind (.any blanks) fun _ _ => (segment_yields depth).bind fun next good =>
      show Yields (pure (connector, next)) (fun found => found.2.Good Segment.IsCanonical) from
        .pure good
  refine .rule (.bind (.any _) fun _ _ => (segment_yields depth).bind fun first good => ?_)
  refine .bind (.any _) fun _ _ => joined.many.bind fun others all => ?_
  exact .bind (.any _) fun _ _ => .bind (.any _) fun _ _ => .pure ⟨good, all⟩

theorem extendChecked_good {targeted : Bool} {chain : Chain}
    {others : List (Connector × Checked Segment)} (marked : targeted = chain.isTargeted)
    (canonical : chain.IsCanonical) (all : ∀ other ∈ others, other.2.Good Segment.IsCanonical) :
    (extendChecked targeted chain others).Good Chain.IsCanonical := by
  induction others generalizing targeted chain with
  | nil => exact .ok canonical
  | cons other others hypothesis =>
      obtain ⟨here, rest⟩ := List.forall_mem_cons.mp all
      obtain ⟨connector, next⟩ := other
      refine Checked.Good.bind here fun segment proper => ?_
      cases second : targeted && segment.target with
      | true => exact .error
      | false =>
          refine hypothesis ?_ ⟨proper, canonical, marked ▸ second⟩ rest
          rw [marked, Bool.or_comm]
          rfl

theorem checkedChain_good {first : Checked Segment}
    {others : List (Connector × Checked Segment)} (good : first.Good Segment.IsCanonical)
    (all : ∀ other ∈ others, other.2.Good Segment.IsCanonical) :
    (checkedChain first others).Good Chain.IsCanonical := by
  refine Checked.Good.bind good fun first canonical => ?_
  cases none : first.window with
  | some window => exact .error
  | none =>
      refine extendChecked_good ?_ ⟨canonical, none⟩ all
      simp [Chain.isTargeted, Chain.segments]

end Segments

end Grammar

/-- Every chain that is read from a source is canonical. -/
theorem Chain.isCanonical_of_parse {source : String} {chain : Chain}
    (parsed : Chain.parse source = .ok chain) : chain.IsCanonical := by
  unfold Chain.parse at parsed
  dsimp only at parsed
  rcases read : Grammar.read source.toList with ⟨_ | ⟨⟨first, others⟩, behind⟩, trace⟩
  · rw [read] at parsed
    cases parsed
  · have written := Grammar.writtenSelector_yields (source.toList.length + 1)
      (Grammar.Cursor.start source.toList) (first, others) behind
      (congrArg Grammar.Outcome.result read)
    rw [read] at parsed
    exact Grammar.checkedChain_good written.1 written.2 chain parsed

end TreeSelector

import TreeSelector.Proofs.Grammar.Segments
import TreeSelector.Proofs.Language.Unplaced

/-!
# Selectors read back

The text of a chain lists its segments in written order, the other way round than the
chain does.  Reading the text of a chain that was read from some source succeeds and
gives the chain back up to spans, and with it everything that is told of the chain.
-/

namespace TreeSelector

namespace Chain

/-- The segment that is written first. -/
def first : Chain → Segment
  | last segment => segment
  | link _ _ rest => rest.first

/-- The segments written behind the first one, each with the connector in front of it. -/
def others : Chain → List (Connector × Segment)
  | last _ => []
  | link segment connector rest => rest.others ++ [(connector, segment)]

/-- How a segment is written behind its connector. -/
def joinedText (other : Connector × Segment) : List Char :=
  ' ' :: (other.1.spelling.toList ++ ' ' :: other.2.render.toList)

/-- A chain is written as its first segment and the joined others. -/
theorem toList_render (chain : Chain) :
    chain.render.toList = chain.first.render.toList ++ chain.others.flatMap joinedText := by
  induction chain with
  | last segment => exact (List.append_nil _).symm
  | link segment connector rest hypothesis =>
      simp [render, first, others, joinedText, hypothesis]

theorem IsCanonical.first {chain : Chain} (canonical : chain.IsCanonical) :
    chain.first.IsCanonical ∧ chain.first.window = none := by
  induction chain with
  | last segment => exact canonical
  | link segment connector rest hypothesis => exact hypothesis canonical.2.1

theorem IsCanonical.others {chain : Chain} (canonical : chain.IsCanonical) :
    ∀ other ∈ chain.others, other.2.IsCanonical := by
  induction chain with
  | last segment => exact fun other member => nomatch member
  | link segment connector rest hypothesis =>
      intro other member
      rcases List.mem_append.mp member with front | last
      · exact hypothesis canonical.2.1 other front
      · obtain rfl := List.mem_singleton.mp last
        exact canonical.1

@[simp]
theorem isTargeted_unplaced (chain : Chain) : chain.unplaced.isTargeted = chain.isTargeted := by
  simp [isTargeted, Function.comp_def, Segment.unplaced]

end Chain

namespace Grammar

open Reader

section Checking

/-- A segment behind its connector is read up to spans. -/
def JoinedAgrees (other : Connector × Segment) (value : Connector × Checked Segment) : Prop :=
  value.1 = other.1 ∧ Checked.Agrees Segment.unplaced other.2 value.2

theorem extendChecked_cons (chain : Chain) (connector : Connector) (segment : Segment)
    (others : List (Connector × Checked Segment)) :
    extendChecked chain.isTargeted chain ((connector, .ok segment) :: others) =
      if chain.isTargeted && segment.target then .error (.secondTarget segment.span)
      else extendChecked (Chain.link segment connector chain).isTargeted
        (.link segment connector chain) others := by
  have marked : (Chain.link segment connector chain).isTargeted =
      (chain.isTargeted || segment.target) := Bool.or_comm _ _
  rw [marked, extendChecked]
  rfl

/-- A chain can be extended by one more segment, if that is no second target. -/
theorem extendChecked_concat {chain whole : Chain} {others : List (Connector × Checked Segment)}
    (extended : extendChecked chain.isTargeted chain others = .ok whole)
    {connector : Connector} {segment : Segment}
    (single : (whole.isTargeted && segment.target) = false) :
    extendChecked chain.isTargeted chain (others ++ [(connector, .ok segment)]) =
      .ok (.link segment connector whole) := by
  induction others generalizing chain with
  | nil =>
      obtain rfl := Except.ok.inj extended
      rw [List.nil_append, extendChecked_cons, if_neg (Bool.eq_false_iff.mp single)]
      rfl
  | cons other others hypothesis =>
      obtain ⟨connector', next⟩ := other
      cases next with
      | error error => cases extended
      | ok next =>
          rw [extendChecked_cons] at extended
          rw [List.cons_append, extendChecked_cons]
          split at extended
          · cases extended
          · rename_i unmarked
            rw [if_neg unmarked]
            exact hypothesis extended

/-- Extending the segment written first by the others gives the chain back. -/
theorem extendChecked_agrees {chain : Chain} (canonical : chain.IsCanonical) {first : Segment}
    (same : first.unplaced = chain.first.unplaced) {others : List (Connector × Checked Segment)}
    (all : List.Forall₂ JoinedAgrees chain.others others) :
    Checked.Agrees Chain.unplaced chain
      (extendChecked (Chain.last first).isTargeted (.last first) others) := by
  induction chain generalizing others with
  | last segment =>
      cases all
      exact ⟨.last first, rfl, congrArg Chain.last same⟩
  | link segment connector rest hypothesis =>
      -- the head of the chain is written last, so it comes in by the last extension
      obtain ⟨front, back, rfl, left, right⟩ := forall₂_append_split all
      obtain ⟨whole, extended, agrees⟩ := hypothesis canonical.2.1 same left
      cases right with
      | cons last none =>
          cases none
          rename_i value
          obtain ⟨connector', next⟩ := value
          obtain ⟨rfl, value, rfl, same'⟩ := last
          have single : (whole.isTargeted && value.target) = false := by
            have target : value.unplaced.target = segment.unplaced.target :=
              congrArg Segment.target same'
            have target : value.target = segment.target := target
            rw [Chain.eq_of_unplaced Chain.isTargeted_unplaced agrees, target]
            exact canonical.2.2
          refine ⟨.link value connector' whole, extendChecked_concat extended single, ?_⟩
          rw [Chain.unplaced, Chain.unplaced, same', agrees]

theorem checkedChain_agrees {chain : Chain} (canonical : chain.IsCanonical)
    {first : Checked Segment} (agrees : Checked.Agrees Segment.unplaced chain.first first)
    {others : List (Connector × Checked Segment)}
    (all : List.Forall₂ JoinedAgrees chain.others others) :
    Checked.Agrees Chain.unplaced chain (checkedChain first others) := by
  obtain ⟨⟨target, predicate, window, span⟩, rfl, same⟩ := agrees
  have written : window = chain.first.unplaced.window := congrArg Segment.window same
  obtain rfl : window = none := written.trans canonical.first.2
  have marked : (Chain.last ⟨target, predicate, none, span⟩).isTargeted = target :=
    Bool.or_false target
  have extended := extendChecked_agrees canonical same all
  rw [marked] at extended
  exact extended

end Checking

section Reading

variable {depth : Nat}

theorem connector_reads (connector : Connector) (rest : List Char) :
    Grammar.connector.Reads (connector.spelling.toList ++ ' ' :: rest) fun found rest' =>
      found = connector ∧ rest' = ' ' :: rest := by
  have cut := Token.exactly_append connector.spelling (' ' :: rest)
  cases connector with
  | descendant => exact .rule (.left (.map (.token cut fun _ => ⟨rfl, rfl⟩)))
  | child =>
      exact .rule (.right (.map (.token rfl)) (.left (.map (.token cut fun _ => ⟨rfl, rfl⟩))))
  | ancestor =>
      exact .rule (.right (.map (.token rfl)) (.right (.map (.token rfl))
        (.left (.map (.token cut fun _ => ⟨rfl, rfl⟩)))))
  | beforeBrother =>
      exact .rule (.right (.map (.token rfl)) (.right (.map (.token rfl))
        (.right (.map (.token rfl)) (.left (.map (.token cut fun _ => ⟨rfl, rfl⟩))))))
  | afterBrother =>
      exact .rule (.right (.map (.token rfl)) (.right (.map (.token rfl))
        (.right (.map (.token rfl)) (.right (.map (.token rfl))
          (.map (.token cut fun _ => ⟨rfl, rfl⟩))))))

theorem connector_fails : Grammar.connector.Fails [] := by
  refine .rule (.both (.map (.token rfl)) (.both (.map (.token rfl)) ?_))
  exact .both (.map (.token rfl)) (.both (.map (.token rfl)) (.map (.token rfl)))

theorem strip_segment (segment : Segment) (rest : List Char) :
    strip (segment.render.toList ++ rest) = segment.render.toList ++ rest := by
  rw [toList_segment]
  cases segment.target <;> exact strip_cons (by decide) _

theorem strip_joined (other : Connector × Segment) (more : List Char) :
    strip (Chain.joinedText other ++ more) =
      other.1.spelling.toList ++ ' ' :: (other.2.render.toList ++ more) := by
  obtain ⟨connector, segment⟩ := other
  unfold Chain.joinedText
  cases connector <;> simp [Connector.spelling, strip, isBlank]

theorem length_predicate_le (segment : Segment) :
    segment.predicate.render.toList.length ≤ segment.render.toList.length := by
  rw [toList_segment, List.length_append, List.length_cons, List.length_append]
  omega

theorem no_window_behind (others : List (Connector × Segment)) :
    ∀ char ∈ (strip (others.flatMap Chain.joinedText ++ [])).head?, char ≠ '\x7b' := by
  cases others with
  | nil => exact nofun
  | cons other others =>
      rw [List.flatMap_cons, List.append_assoc, strip_joined]
      obtain ⟨connector, segment⟩ := other
      cases connector <;> simp [Connector.spelling]

theorem others_read {others : List (Connector × Segment)}
    (canonical : ∀ other ∈ others, other.2.IsCanonical)
    (deep : ∀ other ∈ others, other.2.predicate.render.toList.length < depth) :
    (many do
      let connector ← connector
      let _ ← blanks
      let next ← segment depth
      return (connector, next)).Reads (strip (others.flatMap Chain.joinedText ++ []))
    fun values rest' => List.Forall₂ JoinedAgrees others values ∧ strip rest' = strip [] := by
  refine .many (fun other _ => ?_) connector_fails.bind fun other after within => ?_
  · have whole := strip_joined other []
    rw [List.append_nil] at whole
    rw [whole]
    simp
  · have listed : other ∈ others := within.mem List.mem_cons_self
    rw [strip_joined]
    refine (connector_reads other.1 _).bind fun connector rest' found => .afterBlanks fun _ => ?_
    have skipped : strip rest' = other.2.render.toList ++
        (after.flatMap Chain.joinedText ++ []) := by
      rw [found.2]
      exact strip_segment other.2 _
    rw [skipped]
    have here := segment_reads (canonical other listed) (deep other listed)
      (no_window_behind after)
    exact here.bind fun value rest'' agrees => .pure ⟨⟨found.1, agrees.1⟩, agrees.2⟩

/-- The text of a canonical chain is read to its end. -/
theorem writtenSelector_reads {chain : Chain} (canonical : chain.IsCanonical)
    (deep : chain.render.toList.length < depth) :
    (writtenSelector depth).Reads chain.render.toList fun written _ =>
      Checked.Agrees Segment.unplaced chain.first written.1 ∧
        List.Forall₂ JoinedAgrees chain.others written.2 := by
  rw [Chain.toList_render, List.length_append] at deep
  have deepFirst : chain.first.predicate.render.toList.length < depth := by
    have inside := length_predicate_le chain.first
    omega
  have deepOthers : ∀ other ∈ chain.others,
      other.2.predicate.render.toList.length < depth := by
    intro other listed
    have inside := length_predicate_le other.2
    have whole := Operand.length_le_of_mem_flatMap listed Chain.joinedText
    rw [Chain.joinedText, List.length_cons, List.length_append, List.length_cons] at whole
    omega
  have first := segment_reads canonical.first.1 deepFirst (no_window_behind chain.others)
  have others := others_read canonical.others deepOthers
  rw [Chain.toList_render, ← List.append_nil (chain.others.flatMap Chain.joinedText)]
  refine .rule (.afterBlanks fun _ => ?_)
  rw [strip_segment]
  refine first.bind fun value rest' holds => .afterBlanks fun _ => ?_
  rw [holds.2]
  refine others.bind fun values rest' all => .afterBlanks fun _ => ?_
  rw [all.2]
  have finished : endOfInput.Reads (strip []) fun _ _ => True :=
    .token rfl fun _ => trivial
  exact finished.bind fun _ _ _ => .pure ⟨holds.1, all.1⟩

end Reading

/-- What is read of a whole source is checked. -/
theorem parse_eq (source : String) :
    Chain.parse source =
      match (Grammar.read source.toList).result with
      | some (written, _) => checkedChain written.1 written.2
      | none => .error (unexpectedIn source.toList (Grammar.read source.toList).trace) := by
  unfold Chain.parse
  dsimp only
  rcases Grammar.read source.toList with ⟨none | found, trace⟩ <;> rfl

theorem parse_of_reads {source : String}
    {post : Checked Segment × List (Connector × Checked Segment) → List Char → Prop}
    (reads : (writtenSelector (source.toList.length + 1)).Reads source.toList post) :
    ∃ written rest, post written rest ∧
      Chain.parse source = checkedChain written.1 written.2 := by
  obtain ⟨written, behind, success, holds⟩ := reads 0
  refine ⟨written, behind.rest, holds, ?_⟩
  have found : (Grammar.read source.toList).result = some (written, behind) := success
  rw [parse_eq, found]

/-- A canonical chain is read back from its text up to spans. -/
theorem parse_render_agrees {chain : Chain} (canonical : chain.IsCanonical) :
    Checked.Agrees Chain.unplaced chain (Chain.parse chain.render) := by
  obtain ⟨written, _, ⟨agrees, all⟩, parsed⟩ := parse_of_reads
    (writtenSelector_reads canonical (Nat.lt_succ_self chain.render.toList.length))
  rw [parsed]
  exact checkedChain_agrees canonical agrees all

end Grammar

namespace Chain

/-- The text of a chain that was read is read again.  The chain that comes of it differs
in nothing but spans, so it has the same text and is matched the same way. -/
theorem parse_render {source : String} {chain : Chain} (parsed : Chain.parse source = .ok chain) :
    ∃ again, Chain.parse chain.render = .ok again ∧
      again.unplaced = chain.unplaced ∧
      again.render = chain.render ∧
      again.targetIndex = chain.targetIndex ∧
      again.indexKeys = chain.indexKeys ∧
      again.isRootAnchored = chain.isRootAnchored ∧
      again.revisitsTree = chain.revisitsTree := by
  obtain ⟨again, read, same⟩ := Grammar.parse_render_agrees (isCanonical_of_parse parsed)
  refine ⟨again, read, same, ?_, ?_, ?_, ?_, ?_⟩
  · exact eq_of_unplaced render_unplaced same
  · exact eq_of_unplaced targetIndex_unplaced same
  · exact eq_of_unplaced indexKeys_unplaced same
  · exact eq_of_unplaced isRootAnchored_unplaced same
  · exact eq_of_unplaced revisitsTree_unplaced same

/-- A source with a group, a pattern, a window and a number that are not written the
canonical way. -/
def looseSource : String :=
  "[ (id='a'||vid='b')and text ~= '(?is)\\x41.*' ]<@[childCount>=-05]\x7b01,1\x7d"

theorem parse_render_looseSource : ∃ chain, Chain.parse looseSource = .ok chain ∧
    chain.render = "[(id=\"a\" || vid=\"b\") && text~=\"(?is)A.*\"] < @[childCount>=-5]\x7b1\x7d" ∧
    ∃ again, Chain.parse chain.render = .ok again ∧
      again.unplaced = chain.unplaced ∧
      again.render = chain.render ∧
      again.targetIndex = chain.targetIndex ∧
      again.indexKeys = chain.indexKeys ∧
      again.isRootAnchored = chain.isRootAnchored ∧
      again.revisitsTree = chain.revisitsTree := by
  have rendered : (Chain.parse looseSource).toOption.map Chain.render =
      some "[(id=\"a\" || vid=\"b\") && text~=\"(?is)A.*\"] < @[childCount>=-5]\x7b1\x7d" := by
    decide +kernel
  cases parsed : Chain.parse looseSource with
  | error error =>
      rw [parsed] at rendered
      cases rendered
  | ok chain =>
      rw [parsed] at rendered
      exact ⟨chain, rfl, Option.some.inj rendered, parse_render parsed⟩

end Chain

end TreeSelector

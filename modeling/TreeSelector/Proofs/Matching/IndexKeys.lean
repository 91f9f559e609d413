import TreeSelector.Proofs.Reading.Candidates
import TreeSelector.Reading.Remembering

/-!
# Index keys guard what a predicate accepts

The index keys of a predicate are read off its syntax.  Wherever a predicate that
has some accepts a node, the node answers to one of them, whatever nodes were
matched before and whatever the host fails to tell.  So nothing is lost by testing
only the nodes that answer.
-/

namespace TreeSelector

open Reading (Ensures)

section Texts

variable {text part : String}

theorem contains_self : Text.contains text text = true :=
  Text.occursIn_iff.mpr (List.infix_refl _)

theorem contains_of_beginsWith (begins : Text.beginsWith text part = true) :
    Text.contains text part = true :=
  Text.occursIn_iff.mpr (List.isPrefixOf_iff_prefix.mp begins).isInfix

theorem contains_of_endsWith (ends : Text.endsWith text part = true) :
    Text.contains text part = true :=
  Text.occursIn_iff.mpr
    (List.reverse_prefix.mp (List.isPrefixOf_iff_prefix.mp ends)).isInfix

end Texts

section Values

variable {actual : AttributeValue} {value : String}

theorem eq_string_of_ofAttribute (same : Value.ofAttribute actual = .string value) :
    actual = .string value := by
  cases actual with
  | string found =>
      obtain rfl : found = value := by injection same
      rfl
  | _ => cases same

/-- A textual relation can hold only of texts. -/
theorem contains_of_compare {relation : Relation}
    (textual : relation = .equal ∨ relation = .beginsWith ∨ relation = .contains ∨
      relation = .endsWith)
    (holds : Value.compare relation (.ofAttribute actual) (.string value) = true) :
    ∃ text, actual = .string text ∧ Text.contains text value = true := by
  rcases textual with rfl | textual
  · have same : Value.ofAttribute actual = .string value := by simpa [Value.compare] using holds
    exact ⟨value, eq_string_of_ofAttribute same, contains_self⟩
  · cases actual with
    | string text =>
        refine ⟨text, rfl, ?_⟩
        rcases textual with rfl | rfl | rfl
        · exact contains_of_beginsWith holds
        · exact holds
        · exact contains_of_endsWith holds
    | _ => rcases textual with rfl | rfl | rfl <;> cases holds

end Values

variable {view : View} {context : Context} {session : Session}

/-- An attribute of the current node is read as soon as it is named. -/
theorem eval_attribute {symbol : Symbol} {attr : Attribute}
    (named : Attribute.ofSymbol? symbol = some attr) (span : Span) :
    Operand.eval view context (.reference (.known symbol) span) =
      (do return .ofAttribute (← view.attributeValue context.current attr)) := by
  rw [Operand.eval]
  cases symbol <;> cases named <;> rfl

/-- What a comparison of an attribute of the current node with a text comes to. -/
theorem answer_holds_attribute {symbol : Symbol} {attr : Attribute}
    (named : Attribute.ofSymbol? symbol = some attr) {relation : Relation}
    (plain : relation ≠ .resembles ∧ relation ≠ .notResembles) (value : String)
    (pattern : Option Pattern) (leftSpan rightSpan span : Span) :
    (Comparison.holds view context ⟨.reference (.known symbol) leftSpan, relation,
      .text value pattern rightSpan, span⟩).answer session =
        Value.compare relation
          (.ofAttribute ((view.attributeValue context.current attr).answer session))
          (.string value) := by
  rw [Comparison.holds, eval_attribute named, Reading.answer_bind]
  cases relation with
  | resembles => exact absurd rfl plain.1
  | notResembles => exact absurd rfl plain.2
  | _ => rw [Operand.eval]; rfl

/-- A comparison has a key only if it relates an attribute of the current node to a
text that is not empty. -/
theorem Comparison.of_indexKey? {comparison : Comparison} {key : IndexKey}
    (keyed : comparison.indexKey? = some key) :
    ∃ symbol leftSpan value pattern rightSpan,
      comparison.left = .reference (.known symbol) leftSpan ∧
        comparison.right = .text value pattern rightSpan ∧
        Attribute.ofSymbol? symbol = some key.subject ∧
        (comparison.relation = .equal ∧ (key = .id value ∨ key = .vid value) ∨
          (comparison.relation = .equal ∨ comparison.relation = .beginsWith ∨
            comparison.relation = .contains ∨ comparison.relation = .endsWith) ∧
            key = .text value) := by
  unfold indexKey? at keyed
  split at keyed
  · rename_i symbol leftSpan value pattern rightSpan left right
    refine ⟨symbol, leftSpan, value, pattern, rightSpan, left, right, ?_⟩
    split at keyed
    · cases keyed
    · split at keyed <;> cases keyed <;> simp_all [IndexKey.subject, Attribute.ofSymbol?]
  · cases keyed

/-- The current node of a comparison with a key that holds answers to that key when it is
asked. -/
theorem accepts_of_holds {comparison : Comparison} {key : IndexKey}
    (keyed : comparison.indexKey? = some key)
    (holds : (comparison.holds view context).answer session = true) :
    key.accepts ((view.attributeValue context.current key.subject).answer session) = true := by
  obtain ⟨symbol, leftSpan, value, pattern, rightSpan, left, right, named, form⟩ :=
    Comparison.of_indexKey? keyed
  obtain ⟨_, relation, _, span⟩ := comparison
  subst left right
  have plain : relation ≠ .resembles ∧ relation ≠ .notResembles := by
    rcases form with ⟨rfl, _⟩ | ⟨rfl | rfl | rfl | rfl, _⟩ <;> exact ⟨by decide, by decide⟩
  rw [answer_holds_attribute named plain value pattern leftSpan rightSpan span] at holds
  rcases form with ⟨rfl, identified⟩ | ⟨textual, rfl⟩
  · have same := eq_string_of_ofAttribute (by simpa [Value.compare] using holds)
    rw [same]
    rcases identified with rfl | rfl <;> simp [IndexKey.accepts]
  · obtain ⟨text, same, contained⟩ := contains_of_compare textual holds
    rw [same]
    exact contained

section Connectives

variable (left right : Predicate)

theorem answer_and : ((Predicate.and left right).holds view context).answer session =
    ((left.holds view context).answer session &&
      (right.holds view context).answer ((left.holds view context).after session)) := by
  rw [Predicate.holds, Reading.answer_bind]
  cases (left.holds view context).answer session <;> rfl

theorem answer_or : ((Predicate.or left right).holds view context).answer session =
    ((left.holds view context).answer session ||
      (right.holds view context).answer ((left.holds view context).after session)) := by
  rw [Predicate.holds, Reading.answer_bind]
  cases (left.holds view context).answer session <;> rfl

end Connectives

/-- Wherever a predicate with index keys accepts a node, the node has answered to one of them
at some moment, however a view answers. -/
theorem exists_key_of_holds {predicate : Predicate} (keyed : predicate.indexKeys ≠ [])
    (holds : (predicate.holds view context).answer session = true) :
    ∃ key ∈ predicate.indexKeys, ∃ moment,
      key.accepts ((view.attributeValue context.current key.subject).answer moment) = true := by
  induction predicate generalizing session with
  | compare comparison =>
      rw [Predicate.indexKeys] at keyed ⊢
      cases found : comparison.indexKey? with
      | none => exact absurd (by rw [found]; rfl) keyed
      | some key => exact ⟨key, by simp, session, accepts_of_holds found holds⟩
  | and left right ofLeft ofRight =>
      rw [answer_and, Bool.and_eq_true] at holds
      rw [Predicate.indexKeys, Predicate.keysOfBoth] at keyed ⊢
      split at keyed
      · rename_i none
        rw [if_pos none]
        exact ofRight keyed holds.2
      · rename_i some
        rw [if_neg some]
        exact ofLeft keyed holds.1
  | or left right ofLeft ofRight =>
      rw [answer_or, Bool.or_eq_true] at holds
      rw [Predicate.indexKeys, Predicate.keysOfEither] at keyed ⊢
      split at keyed
      · exact absurd rfl keyed
      · rename_i both
        rw [if_neg both]
        obtain ⟨someLeft, someRight⟩ : left.indexKeys ≠ [] ∧ right.indexKeys ≠ [] := by
          simpa [not_or] using both
        rcases holds with onLeft | onRight
        · obtain ⟨key, member, accepts⟩ := ofLeft someLeft onLeft
          exact ⟨key, by simp [member], accepts⟩
        · obtain ⟨key, member, accepts⟩ := ofRight someRight onRight
          exact ⟨key, by simp [member], accepts⟩

/-- Through a steady view such a node answers to one of the keys whenever it is asked. -/
theorem answersTo_of_holds (steady : view.IsSteady) (predicate : Predicate)
    (keyed : predicate.indexKeys ≠ [])
    (holds : (predicate.holds view context).result = true) :
    (view.answersTo context.current predicate.indexKeys).result = true := by
  obtain ⟨key, member, moment, accepts⟩ := exists_key_of_holds keyed holds
  rw [(gives_answersTo steady _ _).result_eq, List.any_eq_true]
  exact ⟨key, member, (steady.attributeValue context.current key.subject).gives moment ▸ accepts⟩

section Hosts

/-- Asked for an attribute of a node, a view answers with its value or, as often as the host
fails, as if there were none. -/
def View.Tells (view : View) (values : NodeId → Attribute → AttributeValue) : Prop :=
  ∀ node attr, Ensures (fun answer => answer = values node attr ∨ answer = .absent)
    (view.attributeValue node attr)

theorem IndexKey.ne_absent_of_accepts {key : IndexKey} {value : AttributeValue}
    (accepts : key.accepts value = true) : value ≠ .absent := by
  rintro rfl
  cases accepts

/-- The attribute of a node as its host tells it, absent if the host fails. -/
def Host.told (host : Host) (node : NodeId) (attr : Attribute) : AttributeValue :=
  (host.attributeValue node attr).toOption.getD .absent

theorem Host.attributeValue_of_told {host : Host} {node : NodeId} {attr : Attribute}
    (present : host.told node attr ≠ .absent) :
    host.attributeValue node attr = .ok (host.told node attr) := by
  unfold told at present ⊢
  cases read : host.attributeValue node attr with
  | ok value => rfl
  | error error =>
      rw [read] at present
      exact absurd rfl present

theorem Host.readAttribute_tells (host : Host) (node : NodeId) (attr : Attribute) :
    Ensures (fun answer => answer = host.told node attr ∨ answer = .absent)
      (host.readAttribute node attr) := by
  unfold readAttribute
  exact .ite (fun _ _ => .inr rfl) fun _ _ => .inl rfl

theorem Host.view_tells (host : Host) (remembering : Bool) :
    (host.view remembering).Tells host.told := by
  cases remembering <;> exact host.readAttribute_tells

/-- What was told of a node and fits a key is the value of its attribute. -/
theorem exists_key_of_tells {values : NodeId → Attribute → AttributeValue}
    (tells : view.Tells values) {predicate : Predicate} (keyed : predicate.indexKeys ≠ [])
    (holds : (predicate.holds view context).answer session = true) :
    ∃ key ∈ predicate.indexKeys, key.accepts (values context.current key.subject) = true := by
  obtain ⟨key, member, moment, accepts⟩ := exists_key_of_holds keyed holds
  rcases tells context.current key.subject moment with same | failed
  · exact ⟨key, member, same ▸ accepts⟩
  · exact absurd failed (IndexKey.ne_absent_of_accepts accepts)

/-- The index keys of a predicate are implied by it.  Wherever it holds, one of them accepts the
attribute of the current node: through either view of a host, of which any part may be out of
reach, and through any view that now and then fails to tell an attribute. -/
theorem indexKeys_are_implied (predicate : Predicate) (keyed : predicate.indexKeys ≠ [])
    (context : Context) (session : Session) :
    (∀ (host : Host) (remembering : Bool),
      (predicate.holds (host.view remembering) context).answer session = true →
        ∃ key ∈ predicate.indexKeys, ∃ value,
          host.attributeValue context.current key.subject = .ok value ∧
            key.accepts value = true) ∧
      ∀ (view : View) (values : NodeId → Attribute → AttributeValue), view.Tells values →
        (predicate.holds view context).answer session = true →
          ∃ key ∈ predicate.indexKeys,
            key.accepts (values context.current key.subject) = true := by
  refine ⟨fun host remembering holds => ?_, fun view values tells holds =>
    exists_key_of_tells tells keyed holds⟩
  obtain ⟨key, member, accepts⟩ :=
    exists_key_of_tells (host.view_tells remembering) keyed holds
  have read := Host.attributeValue_of_told (IndexKey.ne_absent_of_accepts accepts)
  exact ⟨key, member, host.told context.current key.subject, read, accepts⟩

/-- The view of a host that fails at the very first question. -/
def Host.hesitantView (host : Host) : View :=
  { host.directView with
    attributeValue := fun node attr => do
      let calls := (← get).calls
      let value ← host.readAttribute node attr
      return if calls = 0 then .absent else value }

theorem Host.hesitantView_tells (host : Host) : host.hesitantView.Tells host.told := by
  intro node attr
  refine (Ensures.any get).bind fun session _ => (host.readAttribute_tells node attr).bind
    fun value told => .pure ?_
  split
  · exact .inr rfl
  · exact told

/-- The predicate `id="ad" || clickable=true && text^="Sk"`. -/
def adOrSkip : Predicate :=
  .or (.compare ⟨.reference (.known .id) .nowhere, .equal, .text "ad" none .nowhere, .nowhere⟩)
    (.and
      (.compare ⟨.reference (.known .clickable) .nowhere, .equal, .boolean true .nowhere,
        .nowhere⟩)
      (.compare ⟨.reference (.known .text) .nowhere, .beginsWith, .text "Sk" none .nowhere,
        .nowhere⟩))

/-- The identifier cannot be told at first, and the predicate holds for the text. -/
theorem indexKeys_are_implied_hesitantly :
    let tree := Tree.ofCaptured (.node {}
      [.node { id := some "ad", text := some "Skip", clickable := true } [], .node {} []])
    let host : Host :=
      { tree, detached := [⟨2, 3⟩], holes := [(0, 0)], rootless := true, indexed := false }
    adOrSkip.indexKeys = [.id "ad", .text "Sk"] ∧
      (adOrSkip.holds (host.view true) ⟨1, [0]⟩).answer (.fresh 1) = true ∧
      (∃ key ∈ adOrSkip.indexKeys, ∃ value,
        host.attributeValue 1 key.subject = .ok value ∧ key.accepts value = true) ∧
      host.hesitantView.Tells host.told ∧
      (adOrSkip.holds host.hesitantView ⟨1, [0]⟩).answer (.fresh 1) = true ∧
      ∃ key ∈ adOrSkip.indexKeys, key.accepts (host.told 1 key.subject) = true := by
  intro tree host
  have keys : adOrSkip.indexKeys = [.id "ad", .text "Sk"] := by decide +kernel
  have keyed : adOrSkip.indexKeys ≠ [] := keys ▸ List.cons_ne_nil _ _
  have holds : (adOrSkip.holds (host.view true) ⟨1, [0]⟩).answer (.fresh 1) = true := by
    decide +kernel
  have tells := host.hesitantView_tells
  have holds' : (adOrSkip.holds host.hesitantView ⟨1, [0]⟩).answer (.fresh 1) = true := by
    decide +kernel
  obtain ⟨served, told⟩ := indexKeys_are_implied adOrSkip keyed ⟨1, [0]⟩ (.fresh 1)
  exact ⟨keys, holds, served host true holds, tells, holds',
    told host.hesitantView host.told tells holds'⟩

end Hosts

end TreeSelector

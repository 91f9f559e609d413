import TreeSelector.Proofs.Grammar.SteadyPredicates

/-!
# Windows, segments and selectors are steady

The bounds of a window need a brace behind them, and a segment may stand in front of everything
but a brace.  A selector is steady behind its first blanks, and it ends where the source does.
So whatever place an attempt has failed in, there is a selector that begins with the source up to
there.
-/

namespace TreeSelector.Grammar

open Reader

section Windows

variable {ι : Type} {deep : ι → Nat}

/-- How digits begin. -/
def BeginsDigits (found : Option Char) : Prop := ∃ char, found = some char ∧ char.isDigit = true

theorem digits_refuse {source : List Char} (other : ¬ BeginsDigits source.head?) :
    Token.digits source = none := by
  cases source with
  | nil => rfl
  | cons char source =>
      exact Token.digits_eq_none (Bool.eq_false_iff.mpr fun digit => other ⟨char, rfl, digit⟩)

theorem digits_steady (name : Rule) : Steady (token name Token.digits)
    (fun _ : ι => token name Token.digits) deep BeginsDigits (fun _ => True)
      fun _ lexeme lexeme' => lexeme.text = lexeme'.text := by
  have begins : ∀ {source taken rest}, Token.digits source = some (taken, rest) →
      BeginsDigits taken.head? := by
    intro source taken rest cut
    obtain ⟨some, digits, _⟩ := Token.digits_eq_some cut
    obtain ⟨char, part, rfl⟩ := List.exists_cons_of_ne_nil some
    exact ⟨char, rfl, digits char List.mem_cons_self⟩
  exact (Steady.scan (cuts_of_lexical Token.isLexical_digits begins) (rfl : strip ['0'] = ['0'])
    rfl).rule name

theorem bound_steady (name : Rule) : Steady (optional (token name Token.digits))
    (fun _ : ι => optional (token name Token.digits)) deep
      (fun found => found = none ∨ BeginsDigits found) (fun found => ¬ BeginsDigits found)
      fun _ => SameDigits :=
  ((digits_steady name).optional fun _ _ other => .token (digits_refuse other)).narrow
    (fun _ => id) fun _ other => ⟨trivial, other⟩

/-- How the bounds of a window begin. -/
def BeginsBounds (found : Option Char) : Prop := found = some ',' ∨ BeginsDigits found

theorem not_beginsDigits {char : Char} (other : char.isDigit = false) :
    ¬ BeginsDigits (some char) := by
  rintro ⟨digit, same, holds⟩
  obtain rfl := Option.some.inj same
  rw [holds] at other
  cases other

theorem windowRange_steady : Steady windowRange (fun _ : ι => windowRange) deep BeginsBounds
    (fun found => ¬ BeginsDigits found) fun _ bounds bounds' => bounds.window? = bounds'.window? := by
  have adjoins : Adjoins (· = some ',') (fun found => ¬ BeginsDigits found)
      fun found => ¬ BeginsDigits found := .of_char (not_beginsDigits (by decide))
  have opening : ∀ found, OpensEither (fun found => found = none ∨ BeginsDigits found)
      (· = some ',') found → BeginsBounds found := fun _ opening => opening.of_optional.symm
  refine Steady.rule (Steady.narrow ((bound_steady .windowMin).seq (fun min => ?_) adjoins)
    opening fun _ => id) .windowRange
  refine Steady.afterSign ((bound_steady .windowMax).result ?_) "," rfl (by decide) rfl
  exact fun _ _ _ same' same => window?_range_congr same same'

theorem windowRange_refuses {taken rest : List Char}
    (cut : Token.digits (taken ++ rest) = some (taken, rest)) (other : ahead rest ≠ some ',') :
    windowRange.Fails (taken ++ rest) := by
  have min : (optional (token .windowMin Token.digits)).Reads (taken ++ rest)
      fun _ rest' => rest' = rest := .present (.token cut fun _ => rfl)
  refine .rule (.after min fun _ rest' same => .afterBlanks fun _ => ?_)
  rw [same]
  exact (literal_refuses rfl other).bind

/-- Only what comes behind digits tells what they are the bounds of. -/
theorem bounds_steady : Steady (windowRange.orElse windowExact)
    (fun _ : ι => windowRange.orElse windowExact) deep BeginsBounds (· = some '\x7d')
      fun _ bounds bounds' => bounds.window? = bounds'.window? := by
  have range : Steady windowRange (fun _ : ι => windowRange) deep BeginsBounds (· = some '\x7d')
      fun _ bounds bounds' => bounds.window? = bounds'.window? := by
    refine windowRange_steady.narrow (fun _ => id) ?_
    rintro _ rfl
    exact not_beginsDigits (by decide)
  refine ⟨?_, ?_, range.sample.left fun _ => id⟩
  · intro cursor bounds behind solid success
    rw [result_orElse] at success
    rcases Option.or_eq_some_iff.mp success with read | ⟨_, read⟩
    · obtain ⟨taken, takes, opening, twin⟩ := range.again solid read
      exact ⟨taken, takes, opening, fun i rest resumes ending bound =>
        (twin i rest resumes ending bound).left⟩
    · change ((token .windowExact Token.digits >>= fun lexeme => Pure.pure (Bounds.exact lexeme) :
        Reader Bounds) cursor).result = _ at read
      obtain ⟨digits, last, found, made⟩ := run_bind read
      obtain ⟨rfl, rfl⟩ := Prod.mk.inj (Option.some.inj made)
      rw [Reader.token, result_rule, result_scan] at found
      obtain ⟨⟨taken, rest⟩, cut, same⟩ := Option.map_eq_some_iff.mp found
      obtain ⟨rfl, rfl⟩ := Prod.mk.inj same
      obtain ⟨some, all, split, _⟩ := Token.digits_eq_some cut
      rw [split] at cut solid
      obtain ⟨char, part, rfl⟩ := List.exists_cons_of_ne_nil some
      refine ⟨char :: part, ⟨split, rfl⟩, ?_, fun i rest' resumes ending _ => ?_⟩
      · rw [ahead_of_solid solid]
        exact .inr ⟨char, rfl, all char List.mem_cons_self⟩
      · have again := Token.digits_steady (resumes.follows some) cut
        refine .right (windowRange_refuses again ?_) (.map (.token again fun span => ?_))
        · rw [ending]
          decide
        · refine ⟨?_, .refl rest'⟩
          unfold Bounds.window?
          rfl
  · intro cursor solid offset traced
    rcases mem_offsets_orElse traced with early | late
    · obtain ⟨begun, rest, split, place, completable⟩ := range.viable solid offset early
      exact ⟨begun, rest, split, place, completable.left fun _ => id⟩
    · obtain rfl := offset_of_token late
      exact ⟨[], cursor.rest, rfl, rfl, range.sample.left fun _ => id⟩

instance : Nonempty Bounds := ⟨.range none none⟩

theorem window_steady : Steady window (fun _ : ι => window) deep (· = some '\x7b') (fun _ => True)
    fun _ => Checked.Alike id := by
  have closed : Steady (do
      let bounds ← windowRange.orElse windowExact
      let _ ← blanks
      let _ ← literal "\x7d"
      return bounds) (fun _ : ι => do
      let bounds ← windowRange.orElse windowExact
      let _ ← blanks
      let _ ← literal "\x7d"
      return bounds) deep BeginsBounds (fun _ => True)
      fun _ bounds bounds' => bounds.window? = bounds'.window? := by
    have begins : ¬ BeginsBounds none := by
      rintro (nothing | ⟨_, nothing, _⟩) <;> cases nothing
    refine bounds_steady.append begins (fun bounds => ?_) (.of_char rfl)
    exact (literal_steady rfl (by decide) rfl).result fun _ _ _ _ same => same
  have enclosed := (closed.afterSign "\x7b" rfl (by decide) rfl).rule .window
  have noted := enclosed.noted (result_spelled _) (trace_spelled _) fun _ => result_spelled _
  exact noted.result fun _ _ _ same => checkedWindow_alike same _ _ _ _

theorem window_closed : Closed (fun _ : ι => window) (· = some '\x7b') :=
  fun _ _ other => Fails.bind (fails_spelled (.rule (literal_refuses rfl other).bind))

end Windows

section Segments

variable {ι : Type} {deep : ι → Nat}

/-- How a segment begins. -/
def BeginsSegment (found : Option Char) : Prop := found = some '@' ∨ found = some '['

theorem not_beginsSegment_none : ¬ BeginsSegment none := by
  rintro (nothing | nothing) <;> cases nothing

theorem target_steady : Steady (optional (token .target (Token.exactly "@")))
    (fun _ : ι => optional (token .target (Token.exactly "@"))) deep
      (fun found => found = none ∨ found = some '@') (· ≠ some '@')
      fun _ mark mark' => mark.isSome = mark'.isSome := by
  have mark : Steady (token .target (Token.exactly "@"))
      (fun _ : ι => token .target (Token.exactly "@")) deep (· = some '@') (fun _ => True)
      fun _ lexeme lexeme' => lexeme.text = lexeme'.text :=
    (literal_steady rfl (by decide) rfl).rule .target
  have optional := mark.optional fun _ _ other => .rule (literal_refuses rfl other)
  refine (optional.narrow (fun _ => id) fun _ other => ⟨trivial, other⟩).weaken ?_
  rintro _ _ _ (_ | _) <;> rfl

/-- Parts of a segment that make segments which differ in nothing but spans. -/
def PartsAlike (parts parts' : Bool × Checked Predicate × Option (Checked Window)) : Prop :=
  parts.1 = parts'.1 ∧ Checked.Alike Predicate.unplaced parts.2.1 parts'.2.1 ∧
    Option.Rel (Checked.Alike id) parts.2.2 parts'.2.2

theorem closed_steady (target : Bool) (predicate : Checked Predicate) (targets : ι → Bool)
    (predicates : ι → Checked Predicate) : Steady (do
        let _ ← literal "]"
        let _ ← blanks
        let window ← optional window
        return (target, predicate, window)) (fun i => do
        let _ ← literal "]"
        let _ ← blanks
        let window ← optional window
        return (targets i, predicates i, window)) deep (· = some ']') (· ≠ some '\x7b')
      fun i parts parts' => target = targets i →
        Checked.Alike Predicate.unplaced predicate (predicates i) → PartsAlike parts parts' := by
  have ending : ∀ found, found ≠ some '\x7b' → True ∧ ¬ found = some '\x7b' :=
    fun _ other => ⟨trivial, other⟩
  have windows := ((@window_steady ι deep).optional window_closed).narrow (fun _ => id) ending
  refine Steady.afterSign (windows.result ?_) "]" rfl (by decide) rfl
  exact fun _ _ _ alike' same alike => ⟨same, alike, alike'⟩

theorem bracketed_steady (depth : Nat) (target : Bool) (targets : ι → Bool) :
    Steady (do
        let _ ← literal "["
        let _ ← blanks
        let predicate ← predicate depth depth
        let _ ← blanks
        let _ ← literal "]"
        let _ ← blanks
        let window ← optional window
        return (target, predicate, window)) (fun i => do
        let _ ← literal "["
        let _ ← blanks
        let predicate ← predicate (deep i) (deep i)
        let _ ← blanks
        let _ ← literal "]"
        let _ ← blanks
        let window ← optional window
        return (targets i, predicate, window)) deep (· = some '[') (· ≠ some '\x7b')
      fun i parts parts' => target = targets i → PartsAlike parts parts' := by
  have inside : Steady (predicate depth depth) (fun i => predicate (deep i) (deep i)) deep
      BeginsPredicate LeavesPredicate fun _ => Checked.Alike Predicate.unplaced :=
    ((predicate_steady depth depth).reindex fun i => (deep i, deep i)).shallower
      fun i => (Nat.min_self (deep i)).ge
  have behind := fun predicate =>
    @closed_steady _ (fun i : ι × Checked Predicate => deep i.1) target predicate
      (fun i => targets i.1) Prod.snd
  have adjoins : Adjoins (· = some ']') (· ≠ some '\x7b') LeavesPredicate := .of_char (.inr rfl)
  refine Steady.afterSign (inside.append not_beginsPredicate_none (fun predicate => ?_) adjoins)
    "[" rfl (by decide) rfl
  exact (behind predicate).weaken fun _ _ _ holds alike same => holds same alike

theorem parts_steady (depth : Nat) : Steady (do
      let target ← optional (token .target (Token.exactly "@"))
      let _ ← blanks
      let _ ← literal "["
      let _ ← blanks
      let predicate ← predicate depth depth
      let _ ← blanks
      let _ ← literal "]"
      let _ ← blanks
      let window ← optional window
      return (target.isSome, predicate, window)) (fun depth : Nat => do
      let target ← optional (token .target (Token.exactly "@"))
      let _ ← blanks
      let _ ← literal "["
      let _ ← blanks
      let predicate ← predicate depth depth
      let _ ← blanks
      let _ ← literal "]"
      let _ ← blanks
      let window ← optional window
      return (target.isSome, predicate, window)) id BeginsSegment (· ≠ some '\x7b')
      fun _ => PartsAlike := by
  have bracketed := fun target : Option Lexeme =>
    @bracketed_steady (Nat × Option Lexeme) Prod.fst depth target.isSome fun i => i.2.isSome
  have adjoins : Adjoins (· = some '[') (· ≠ some '\x7b') (· ≠ some '@') := .of_char (by decide)
  have opening : ∀ found, OpensEither (fun found => found = none ∨ found = some '@')
      (· = some '[') found → BeginsSegment found := fun _ opening => opening.of_optional
  exact Steady.narrow ((@target_steady Nat id).seq bracketed adjoins) opening fun _ => id

/-- A segment is steady if the depth of what is in it exceeds the length of the source. -/
theorem segment_steady (depth : Nat) : Steady (segment depth) segment id BeginsSegment
    (· ≠ some '\x7b') fun _ => Checked.Alike Segment.unplaced := by
  refine ((parts_steady depth).rule .segment).placed.result ?_
  rintro _ ⟨⟨target, predicate, window⟩, span⟩ ⟨⟨target', predicate', window'⟩, span'⟩
    ⟨same, alike, windows⟩
  obtain rfl : target = target' := same
  exact segment_alike target alike windows span span'

/-- How a connector begins. -/
def BeginsConnector (found : Option Char) : Prop :=
  ∃ connector : Connector, found = connector.spelling.toList.head?

theorem not_beginsConnector_none : ¬ BeginsConnector none := by
  rintro ⟨connector, nothing⟩
  cases connector <;> cases nothing

theorem connector_ne_brace : ¬ BeginsConnector (some '\x7b') := by
  rintro ⟨connector, same⟩
  cases connector <;> cases same

instance : Nonempty Connector := ⟨.child⟩

theorem connector_readsAgain (connector : Connector) {rest : List Char}
    (other : ∀ char ∈ rest.head?, '<' ≠ char) :
    Grammar.connector.Reads (connector.spelling.toList ++ rest) fun found rest' =>
      found = connector ∧ rest' = rest := by
  have cut := Token.exactly_append connector.spelling rest
  cases connector with
  | descendant => exact .rule (.left (.map (.token cut fun _ => ⟨rfl, rfl⟩)))
  | child =>
      have single : Token.exactly "<<" ('<' :: rest) = none := by
        cases rest with
        | nil => rfl
        | cons char rest => simp [Token.exactly, Text.dropLeading?, other char rfl]
      exact .rule (.right (.map (.token single)) (.left (.map (.token cut fun _ => ⟨rfl, rfl⟩))))
  | ancestor =>
      exact .rule (.right (.map (.token rfl)) (.right (.map (.token rfl))
        (.left (.map (.token cut fun _ => ⟨rfl, rfl⟩)))))
  | beforeBrother =>
      exact .rule (.right (.map (.token rfl)) (.right (.map (.token rfl))
        (.right (.map (.token rfl)) (.left (.map (.token cut fun _ => ⟨rfl, rfl⟩))))))
  | afterBrother =>
      exact .rule (.right (.map (.token rfl)) (.right (.map (.token rfl))
        (.right (.map (.token rfl)) (.right (.map (.token rfl))
          (.map (.token cut fun _ => ⟨rfl, rfl⟩))))))

theorem run_firstOf {α : Type} {readers : List (Reader α)} {cursor : Cursor}
    {found : α × Cursor} (success : (firstOf readers cursor).result = some found) :
    ∃ reader ∈ readers, (reader cursor).result = some found := by
  fun_induction firstOf readers with
  | case1 => cases success
  | case2 reader => exact ⟨reader, List.mem_cons_self, success⟩
  | case3 reader readers some hypothesis =>
      rw [result_orElse] at success
      rcases Option.or_eq_some_iff.mp success with read | ⟨_, read⟩
      · exact ⟨reader, List.mem_cons_self, read⟩
      · obtain ⟨other, listed, read⟩ := hypothesis read
        exact ⟨other, List.mem_cons_of_mem reader listed, read⟩

/-- A connector is read from its spelling. -/
theorem run_connector {cursor behind : Cursor} {value : Connector}
    (success : (connector cursor).result = some (value, behind)) :
    cursor.Takes value.spelling.toList behind := by
  rw [connector, result_rule] at success
  obtain ⟨reader, listed, read⟩ := run_firstOf success
  obtain ⟨connector, _, rfl⟩ := List.mem_map.mp listed
  obtain ⟨lexeme, last, found, made⟩ := run_bind read
  obtain ⟨rfl, rfl⟩ := Prod.mk.inj (Option.some.inj made)
  rw [token, result_rule, result_scan] at found
  obtain ⟨⟨taken, rest⟩, cut, same⟩ := Option.map_eq_some_iff.mp found
  obtain ⟨rfl, rfl⟩ := Prod.mk.inj same
  obtain ⟨rfl, split⟩ := Token.exactly_eq_some cut
  exact ⟨split, rfl⟩

theorem connector_closed : Closed (fun _ : ι => connector) BeginsConnector := by
  intro _ source other offset
  cases read : (connector ⟨offset, source⟩).result with
  | none => rfl
  | some found =>
      obtain ⟨value, behind⟩ := found
      refine absurd ⟨value, ?_⟩ other
      have split : source = value.spelling.toList ++ behind.rest := (run_connector read).rest
      rw [split]
      cases value <;> rfl

theorem connector_steady : Steady connector (fun _ : ι => connector) deep BeginsConnector
    (· ≠ some '<') fun _ => Eq := by
  have sample : Completable (fun _ : ι => connector) deep BeginsConnector (· ≠ some '<') [] := by
    refine ⟨['+'], ⟨.beforeBrother, rfl⟩, fun i rest _ _ => ?_⟩
    have reads := connector_reads .beforeBrother rest
    exact reads.mono fun _ _ holds => holds.2 ▸ strip_space rest
  refine ⟨?_, fun _ offset traced => ?_, sample⟩
  · intro cursor value behind solid success
    have takes := run_connector success
    have begins : value.spelling.toList ≠ [] := by cases value <;> decide
    refine ⟨_, takes, ⟨value, ?_⟩, fun i rest resumes ending _ => ?_⟩
    · exact ahead_of_solid (takes.rest ▸ solid)
    · refine (connector_readsAgain value fun char here same => ?_).mono
        fun _ _ holds => ⟨holds.1.symm, holds.2 ▸ .refl rest⟩
      exact head_ne_of_ahead ending rfl char here same.symm
  · refine ⟨[], _, rfl, ?_, sample⟩
    rcases offset_of_rule traced with here | inner
    · exact here
    · refine offset_of_firstOf (fun reader listed there => ?_) inner
      obtain ⟨connector, _, rfl⟩ := List.mem_map.mp listed
      exact offset_of_token there

/-- Segments behind the first one, each with its connector. -/
theorem joined_steady (depth : Nat) : Steady (do
      let connector ← connector
      let _ ← blanks
      let next ← segment depth
      return (connector, next)) (fun depth => do
      let connector ← connector
      let _ ← blanks
      let next ← segment depth
      return (connector, next)) id BeginsConnector (· ≠ some '\x7b')
      fun _ => JoinedAlike Segment.unplaced := by
  have adjoins : Adjoins BeginsSegment (· ≠ some '\x7b') (· ≠ some '<') := by
    refine .of_begins not_beginsSegment_none ?_
    rintro _ (rfl | rfl) <;> decide
  refine connector_steady.append not_beginsConnector_none
    (fun connector => ((segment_steady depth).reindex Prod.fst).result ?_) adjoins
  exact fun _ _ _ alike same => ⟨same, alike⟩

theorem endOfInput_steady : Steady endOfInput (fun _ : ι => endOfInput) deep (· = none) (· = none)
    fun _ lexeme lexeme' => lexeme.text = lexeme'.text := by
  refine (Steady.scan ⟨?_, ?_⟩ (rfl : strip [] = []) rfl).rule .endOfInput
  · intro source taken rest cut
    obtain ⟨ended, same⟩ := Option.ite_none_right_eq_some.mp cut
    obtain ⟨rfl, rfl⟩ := Prod.mk.inj (Option.some.inj same)
    exact ⟨List.isEmpty_iff.mp ended, rfl⟩
  · intro taken rest rest' cut resumes ending
    obtain ⟨ended, same⟩ := Option.ite_none_right_eq_some.mp cut
    obtain ⟨rfl, rfl⟩ := Prod.mk.inj (Option.some.inj same)
    rw [ahead_eq_head (resumes.solid rfl)] at ending
    rw [List.head?_eq_none_iff.mp ending]
    rfl

/-- What a selector is behind its first blanks. -/
def selectorBody (depth : Nat) : Reader (Checked Segment × List (Connector × Checked Segment)) := do
  let first ← segment depth
  let _ ← blanks
  let others ← many do
    let connector ← connector
    let _ ← blanks
    let next ← segment depth
    return (connector, next)
  let _ ← blanks
  let _ ← endOfInput
  return (first, others)

theorem selectorBody_steady (depth : Nat) : Steady (selectorBody depth) selectorBody id
    BeginsSegment (· = none) fun _ found found' =>
      Checked.Alike Segment.unplaced found.1 found'.1 ∧
        List.Forall₂ (JoinedAlike Segment.unplaced) found.2 found'.2 := by
  have noBrace : ∀ found, BeginsConnector found → found ≠ some '\x7b' := by
    rintro found begins rfl
    exact connector_ne_brace begins
  have others := (joined_steady depth).many (fun _ _ other => (connector_closed () _ other).bind)
    not_beginsConnector_none noBrace
  have last : Adjoins (· = none) (· = none) fun found =>
      found ≠ some '\x7b' ∧ ¬ BeginsConnector found := by
    refine ⟨nofun, ?_⟩
    rintro _ found rfl
    exact ⟨nofun, not_beginsConnector_none⟩
  have behind : Adjoins (OpensEither (fun found => found = none ∨ BeginsConnector found) (· = none))
      (· = none) (· ≠ some '\x7b') := by
    constructor
    · intro char opening
      rcases opening.of_optional with begins | nothing
      · exact noBrace _ begins
      · cases nothing
    · rintro _ found rfl
      exact nofun
  refine (segment_steady depth).append not_beginsSegment_none (fun first => ?_) behind
  refine (others.reindex Prod.fst).seq (fun segments => endOfInput_steady.result ?_) last
  exact fun _ _ _ _ all alike => ⟨alike, all⟩

end Segments

end TreeSelector.Grammar

import TreeSelector.Proofs.Grammar.Predicates

/-!
# Windows and segments read back

A window is written in one of three forms, each of which the reader of windows tells
from the others.  A segment is read back from its text up to spans, whatever follows,
unless it could be a window.
-/

namespace TreeSelector.Grammar

open Reader
open Token (isNameChar continuesName)

section Windows

/-- The digits of an offset. -/
def offsetText (offset : UInt32) : List Char := Text.Radix.naturalText 10 offset.toNat

theorem offset?_eq {offset : UInt32} {lexeme : Lexeme} (written : lexeme.text = offsetText offset) :
    offset? lexeme = some offset := by
  unfold offset?
  rw [written, offsetText, Text.Radix.natural?_naturalText (by decide) (by decide),
    Option.bind_some, Text.uint32?_toNat]

theorem strip_offsetText (offset : UInt32) (rest : List Char) :
    strip (offsetText offset ++ rest) = offsetText offset ++ rest := by
  unfold offsetText
  cases text : Text.Radix.naturalText 10 offset.toNat with
  | nil => exact absurd text (Text.Radix.naturalText_ne_nil _)
  | cons char part =>
      have digit := Text.Radix.isDigit_of_mem_naturalText char (text ▸ List.mem_cons_self)
      exact strip_cons (isBlank_of_opensOperand (opensOperand_of_isNameChar
        (Token.isNameChar_of_isDigit digit))) _

/-- The text of an offset that may be absent. -/
def boundText (bound : Option UInt32) : List Char := (bound.map offsetText).getD []

theorem bound_reads (name : Rule) (bound : Option UInt32) {rest : List Char}
    (ends : continuesName rest = false) :
    (optional (token name Token.digits)).Reads (boundText bound ++ rest) fun found rest' =>
      found.map offset? = bound.map some ∧ rest' = rest := by
  cases bound with
  | none =>
      refine .absent (.token ?_) ⟨rfl, rfl⟩
      cases rest with
      | nil => rfl
      | cons char rest =>
          refine Token.digits_eq_none ?_
          by_contra digit
          have continues := Token.isNameChar_of_isDigit (Bool.not_eq_false _ ▸ digit)
          rw [continuesName, continues] at ends
          cases ends
  | some offset =>
      refine .present (.token (Token.digits_naturalText offset.toNat ends) fun span => ?_)
      exact ⟨congrArg some (offset?_eq rfl), rfl⟩

theorem window?_range {min max : Option Lexeme} {least : UInt32} {most : Option UInt32}
    (first : min.map offset? = (some least).map some) (last : max.map offset? = most.map some) :
    (Bounds.range min max).window? = some ⟨least, most⟩ := by
  cases min with
  | none => cases first
  | some min =>
      have first : offset? min = some least := Option.some.inj first
      cases max with
      | none =>
          cases most with
          | none =>
              unfold Bounds.window?
              dsimp only
              rw [first]
              rfl
          | some most => cases last
      | some max =>
          cases most with
          | none => cases last
          | some most =>
              have last : offset? max = some most := Option.some.inj last
              unfold Bounds.window?
              dsimp only
              rw [first, last]
              rfl

theorem windowRange_reads (least : UInt32) (most : Option UInt32) (rest : List Char) :
    windowRange.Reads (offsetText least ++ ',' :: (boundText most ++ '\x7d' :: rest))
      fun bounds rest' =>
        bounds.window? = some ⟨least, most⟩ ∧ rest' = '\x7d' :: rest := by
  have first := bound_reads .windowMin (some least)
    (show continuesName (',' :: (boundText most ++ '\x7d' :: rest)) = false from rfl)
  have last := bound_reads .windowMax most (show continuesName ('\x7d' :: rest) = false from rfl)
  have comma : strip (',' :: (boundText most ++ '\x7d' :: rest)) =
      ',' :: (boundText most ++ '\x7d' :: rest) := strip_cons (by decide) _
  have solid : strip (boundText most ++ '\x7d' :: rest) = boundText most ++ '\x7d' :: rest := by
    cases most with
    | none => exact strip_cons (by decide) rest
    | some most => exact strip_offsetText most _
  refine .rule (first.bind fun min rest' holds => .afterBlanks fun _ => ?_)
  rw [holds.2, comma]
  refine .afterSign rfl fun _ => .afterBlanks fun _ => ?_
  rw [solid]
  exact last.bind fun max rest'' holds' => .pure ⟨window?_range holds.1 holds'.1, holds'.2⟩

theorem windowExact_reads (offset : UInt32) (rest : List Char) :
    (windowRange.orElse windowExact).Reads (offsetText offset ++ '\x7d' :: rest)
      fun bounds rest' =>
        bounds.window? = some ⟨offset, some offset⟩ ∧ rest' = '\x7d' :: rest := by
  have ends : continuesName ('\x7d' :: rest) = false := rfl
  have first := bound_reads .windowMin (some offset) ends
  have noComma : (literal ",").Fails (strip ('\x7d' :: rest)) := by
    rw [strip_cons (by decide)]
    refine .sign rfl fun char found => ?_
    obtain rfl := Option.some.inj found
    decide
  have skipped : ∀ source, source = '\x7d' :: rest →
      blanks.Reads source fun _ rest' => rest' = strip ('\x7d' :: rest) :=
    fun source same => same ▸ .blanks fun _ => rfl
  refine .right (.rule (.after first fun min rest' holds => ?_)) ?_
  · exact .after (skipped rest' holds.2) fun _ rest'' same => same ▸ noComma.bind
  · refine .map (.token (Token.digits_naturalText offset.toNat ends) fun span => ⟨?_, rfl⟩)
    have read : offset? ⟨Text.Radix.naturalText 10 offset.toNat, span⟩ = some offset :=
      offset?_eq rfl
    unfold Bounds.window?
    dsimp only
    rw [read]
    rfl

/-- What is written between the braces of a window. -/
def innerText (window : Window) : List Char :=
  if window.max = some window.min then offsetText window.min
  else offsetText window.min ++ ',' :: boundText window.max

theorem toList_window (window : Window) :
    window.render.toList = '\x7b' :: (innerText window ++ ['\x7d']) := by
  obtain ⟨min, max⟩ := window
  cases max with
  | none => simp [Window.render, innerText, Text.decimal, offsetText, boundText]
  | some max =>
      by_cases same : max = min
      · simp [Window.render, innerText, Text.decimal, offsetText, same]
      · simp [Window.render, innerText, Text.decimal, offsetText, boundText, same]

theorem strip_innerText (window : Window) (rest : List Char) :
    strip (innerText window ++ rest) = innerText window ++ rest := by
  unfold innerText
  split
  · exact strip_offsetText _ _
  · rw [List.append_assoc, strip_offsetText]

theorem bounds_read (window : Window) (rest : List Char) :
    (windowRange.orElse windowExact).Reads (innerText window ++ '\x7d' :: rest)
      fun bounds rest' => bounds.window? = some window ∧ rest' = '\x7d' :: rest := by
  obtain ⟨min, max⟩ := window
  unfold innerText
  by_cases exact : max = some min
  · rw [if_pos exact]
    subst exact
    exact windowExact_reads min rest
  · rw [if_neg exact, List.append_assoc]
    exact .left (windowRange_reads min max rest)

theorem result_spelled {α : Type} (reader : Reader α) (cursor : Cursor) :
    (spelled reader cursor).result = (reader cursor).result.map fun found =>
      ((found.1, ⟨cursor.rest.take (cursor.rest.length - found.2.rest.length), cursor.offset,
        found.2.offset⟩), found.2) := by
  unfold spelled
  rcases reader cursor with ⟨none | found, trace⟩ <;> rfl

theorem trace_spelled {α : Type} (reader : Reader α) (cursor : Cursor) :
    (spelled reader cursor).trace = (reader cursor).trace := by
  unfold spelled
  rcases reader cursor with ⟨none | found, trace⟩ <;> rfl

theorem reads_spelled {α β : Type} {name : Rule} {reader : Reader α} {source : List Char}
    {post : α → List Char → Prop} {next : α × Lexeme → Reader β}
    {final : β → List Char → Prop} (reads : reader.Reads source post)
    (second : ∀ value lexeme rest, post value rest → (next (value, lexeme)).Reads rest final) :
    (spelled (rule name reader) >>= next).Reads source final := by
  refine Reads.bind (fun offset => ?_ : (spelled (rule name reader)).Reads source
    fun found rest => post found.1 rest) fun found => second found.1 found.2
  obtain ⟨value, behind, success, holds⟩ := reads offset
  refine ⟨(value, ⟨source.take (source.length - behind.rest.length), offset, behind.offset⟩),
    behind, ?_, holds⟩
  rw [result_spelled, result_rule, success]
  rfl

theorem fails_spelled {α : Type} {reader : Reader α} {source : List Char}
    (fails : reader.Fails source) : (spelled reader).Fails source := by
  intro offset
  rw [result_spelled, fails offset]
  rfl

/-- A window whose bounds are in order is read back from its text. -/
theorem window_reads {window : Window} (ordered : window.IsOrdered) (rest : List Char) :
    Grammar.window.Reads (window.render.toList ++ rest) fun value rest' =>
      value = .ok window ∧ rest' = rest := by
  have enclosed : (do
        let _ ← literal "\x7b"
        let _ ← blanks
        let bounds ← windowRange.orElse windowExact
        let _ ← blanks
        let _ ← literal "\x7d"
        return bounds).Reads ('\x7b' :: (innerText window ++ '\x7d' :: rest))
      fun bounds rest' => bounds.window? = some window ∧ rest' = rest := by
    refine .afterSign rfl fun _ => .afterBlanks fun _ => ?_
    rw [strip_innerText]
    refine (bounds_read window rest).bind fun bounds rest' holds => .afterBlanks fun _ => ?_
    rw [holds.2, strip_cons (by decide)]
    exact .afterSign rfl fun _ => .pure ⟨holds.1, rfl⟩
  rw [toList_window, List.cons_append, List.append_assoc]
  refine reads_spelled enclosed fun bounds lexeme rest' holds => .pure ⟨?_, holds.2⟩
  unfold checkedWindow
  rw [holds.1]
  exact if_neg (Bool.eq_false_iff.mp ordered)

/-- Whether there is a window depends on the character behind the segment. -/
theorem optionalWindow_reads {written : Option Window}
    (ordered : ∀ window ∈ written, window.IsOrdered) {rest : List Char}
    (ends : ∀ char ∈ (strip rest).head?, char ≠ '\x7b') :
    (optional Grammar.window).Reads
      (strip ((written.map fun window => window.render.toList).getD [] ++ rest))
      fun found rest' => found = written.map .ok ∧ strip rest' = strip rest := by
  cases written with
  | none =>
      have noBrace : (literal "\x7b").Fails (strip rest) := .sign rfl ends
      have fails : Grammar.window.Fails (strip rest) :=
        Fails.bind (fails_spelled (.rule noBrace.bind))
      exact .absent fails ⟨rfl, strip_strip rest⟩
  | some window =>
      have solid : strip (window.render.toList ++ rest) = window.render.toList ++ rest := by
        rw [toList_window, List.cons_append, strip_cons (by decide)]
      change (optional Grammar.window).Reads (strip (window.render.toList ++ rest)) _
      rw [solid]
      refine .present ((window_reads (ordered window rfl) rest).mono ?_)
      rintro value rest' ⟨rfl, rfl⟩
      exact ⟨rfl, rfl⟩

end Windows

section Segments

variable {depth : Nat}

/-- The text of the window of a segment, if it has one. -/
def windowText (segment : Segment) : List Char :=
  (segment.window.map fun window => window.render.toList).getD []

theorem toList_segment (segment : Segment) :
    segment.render.toList = (if segment.target then ['@'] else []) ++
      '[' :: (segment.predicate.render.toList ++ ']' :: windowText segment) := by
  unfold Segment.render windowText
  cases segment.target <;> cases segment.window <;> simp

theorem target_reads (target : Bool) (rest : List Char) :
    (optional (token .target (Token.exactly "@"))).Reads
      ((if target then ['@'] else []) ++ '[' :: rest) fun found rest' =>
        found.isSome = target ∧ rest' = '[' :: rest := by
  cases target with
  | true =>
      have cut : Token.exactly "@" ('@' :: '[' :: rest) = some (['@'], '[' :: rest) :=
        Token.exactly_append "@" ('[' :: rest)
      exact .present (.token cut fun _ => ⟨rfl, rfl⟩)
  | false =>
      have noMark : Token.exactly "@" ('[' :: rest) = none :=
        Token.exactly_eq_none (by rfl) (by decide)
      exact .absent (.token noMark) ⟨rfl, rfl⟩

/-- How a segment is written around the text of its predicate. -/
def textAround (segment : Segment) (written : List Char) : List Char :=
  (if segment.target then ['@'] else []) ++ '[' :: (written ++ ']' :: windowText segment)

/-- A segment is read off its text up to spans if its predicate is, and if no brace
follows. -/
theorem segment_readsAround {segment : Segment}
    (ordered : ∀ window ∈ segment.window, window.IsOrdered) {written rest : List Char}
    (reads : (Grammar.predicate depth depth).Reads
      (strip (written ++ ']' :: (windowText segment ++ rest))) fun value rest' =>
        Checked.Agrees Predicate.unplaced segment.predicate value ∧
          strip rest' = ']' :: (windowText segment ++ rest))
    (ends : ∀ char ∈ (strip rest).head?, char ≠ '\x7b') :
    (Grammar.segment depth).Reads (textAround segment written ++ rest) fun value rest' =>
      Checked.Agrees Segment.unplaced segment value ∧ strip rest' = strip rest := by
  have parts : (do
        let target ← optional (token .target (Token.exactly "@"))
        let _ ← blanks
        let _ ← literal "["
        let _ ← blanks
        let predicate ← predicate depth depth
        let _ ← blanks
        let _ ← literal "]"
        let _ ← blanks
        let window ← optional window
        return (target.isSome, predicate, window)).Reads
      ((if segment.target then ['@'] else []) ++
        '[' :: (written ++ ']' :: (windowText segment ++ rest)))
      fun found rest' => (found.1 = segment.target ∧
        Checked.Agrees Predicate.unplaced segment.predicate found.2.1 ∧
        found.2.2 = segment.window.map Except.ok) ∧ strip rest' = strip rest := by
    refine (target_reads segment.target _).bind fun target rest' marked => .afterBlanks fun _ => ?_
    rw [marked.2, strip_cons (by decide)]
    refine .afterSign rfl fun _ => .afterBlanks fun _ => ?_
    refine reads.bind fun predicate rest' holds => .afterBlanks fun _ => ?_
    rw [holds.2]
    refine .afterSign rfl fun _ => .afterBlanks fun _ => ?_
    refine (optionalWindow_reads ordered ends).bind fun window rest' found => .pure ?_
    exact ⟨⟨marked.1, holds.1, found.1⟩, found.2⟩
  rw [textAround, List.append_assoc, List.cons_append, List.append_assoc, List.cons_append]
  refine parts.placed fun found span rest' holds => .pure ⟨?_, holds.2⟩
  obtain ⟨target, predicate, window⟩ := found
  obtain ⟨rfl, ⟨value, rfl, same⟩, rfl⟩ := holds.1
  obtain ⟨target, predicate, window, place⟩ := segment
  refine ⟨⟨target, value, window, span⟩, ?_, ?_⟩
  · cases window <;> rfl
  · exact congrArg (fun predicate => Segment.mk target predicate window .nowhere) same

/-- A segment is read back from its text up to spans, if no brace follows. -/
theorem segment_reads {segment : Segment} (canonical : segment.IsCanonical)
    (deep : segment.predicate.render.toList.length < depth) {rest : List Char}
    (ends : ∀ char ∈ (strip rest).head?, char ≠ '\x7b') :
    (Grammar.segment depth).Reads (segment.render.toList ++ rest) fun value rest' =>
      Checked.Agrees Segment.unplaced segment value ∧ strip rest' = strip rest := by
  rw [toList_segment]
  refine segment_readsAround canonical.window ?_ ends
  rw [strip_predicate canonical.predicate]
  exact predicate_reads canonical.predicate deep deep ']' (windowText segment ++ rest) (.inr rfl)

end Segments

end TreeSelector.Grammar

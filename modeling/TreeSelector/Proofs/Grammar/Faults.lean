import TreeSelector.Proofs.Grammar.SteadySelectors

/-!
# The first fault of a source

Where the grammar refuses a source, the error names the furthest place an attempt has failed in.
Up to there nothing is wrong yet: some source that the grammar accepts begins with the same text.
-/

namespace TreeSelector

namespace Grammar

open Reader

theorem offset_record (attempts : Attempts) (rule : Rule) (offset keep : Nat) :
    (attempts.record rule offset keep).offset = attempts.offset ∨
      (attempts.record rule offset keep).offset = offset := by
  unfold Attempts.record
  split
  · exact .inr rfl
  · split
    · exact .inr rfl
    · exact .inl rfl

theorem offset_addTo (trace : Trace) (attempts : Attempts) :
    (trace.addTo attempts).offset = attempts.offset ∨
      (trace.addTo attempts).offset ∈ trace.offsets := by
  induction trace generalizing attempts with
  | silent => exact .inl rfl
  | both first second hypothesis hypothesis' =>
      rw [Trace.addTo, Trace.offsets, List.mem_append]
      rcases hypothesis' (first.addTo attempts) with same | listed
      · rw [same]
        exact (hypothesis attempts).imp_right .inl
      · exact .inr (.inr listed)
  | failed rule offset inner hypothesis =>
      have inside : (inner.addTo attempts).offset = attempts.offset ∨
          (inner.addTo attempts).offset ∈ offset :: inner.offsets :=
        (hypothesis attempts).imp_right (List.mem_cons_of_mem offset)
      rw [Trace.addTo, Trace.offsets]
      split
      · exact inside
      · rcases offset_record (inner.addTo attempts) rule offset (attempts.countAt offset) with
          same | here
        · rwa [same]
        · rw [here]
          exact .inr List.mem_cons_self

/-- The furthest place of a trace is one of those in it, or the beginning. -/
theorem offset_furthest (trace : Trace) :
    trace.furthest.offset = 0 ∨ trace.furthest.offset ∈ trace.offsets :=
  offset_addTo trace .initial

/-- What completes a selector behind its first blanks completes the source. -/
theorem accepted_of_completable {gap begun : List Char}
    (blank : ∀ char ∈ gap, isBlank char = true)
    (completable : Completable selectorBody id BeginsSegment (· = none) begun) :
    ∃ completion, (Grammar.read (gap ++ begun ++ completion)).result.isSome = true := by
  obtain ⟨more, _, reads⟩ := completable
  refine ⟨' ' :: (more ++ [' ']), ?_⟩
  have whole : gap ++ begun ++ ' ' :: (more ++ [' ']) =
      gap ++ (begun ++ ' ' :: (more ++ ' ' :: [])) := List.append_assoc _ _ _
  rw [whole]
  have shorter : (begun ++ ' ' :: (more ++ ' ' :: [])).length <
      (gap ++ (begun ++ ' ' :: (more ++ ' ' :: []))).length + 1 := by
    rw [@List.length_append _ gap]
    omega
  have accepts : (writtenSelector ((gap ++ (begun ++ ' ' :: (more ++ ' ' :: []))).length + 1)).Reads
      (gap ++ (begun ++ ' ' :: (more ++ ' ' :: []))) fun _ _ => True := by
    refine .rule (.afterBlanks fun _ => ?_)
    rw [strip_blank_append blank]
    exact (reads _ [] rfl shorter).mono fun _ _ _ => trivial
  obtain ⟨written, behind, success, _⟩ := accepts 0
  exact Option.isSome_of_eq_some success

theorem accepted_sample : ∃ completion, (Grammar.read ([] ++ completion)).result.isSome = true :=
  @accepted_of_completable [] [] nofun (selectorBody_steady 0).sample

/-- Wherever an attempt has failed, the source up to there can be completed. -/
theorem viable_of_mem_offsets {source : List Char} {offset : Nat}
    (traced : offset ∈ (Grammar.read source).trace.offsets) :
    ∃ before after completion, source = before ++ after ∧ offset = Text.byteLength before ∧
      (Grammar.read (before ++ completion)).result.isSome = true := by
  rcases offset_of_rule traced with start | inner
  · obtain ⟨completion, accepted⟩ := accepted_sample
    exact ⟨[], source, completion, rfl, start, accepted⟩
  · rcases mem_offsets_bind inner with nowhere | ⟨gap, behind, skipped, there⟩
    · cases nowhere
    · obtain ⟨blank, takes, stripped⟩ := run_blanks skipped
      obtain ⟨begun, rest, split, place, completable⟩ :=
        (selectorBody_steady _).viable (by rw [stripped, strip_strip]) offset there
      obtain ⟨completion, accepted⟩ := accepted_of_completable blank completable
      obtain ⟨whole, here⟩ := takes.extend split place
      exact ⟨gap.text ++ begun, rest, completion, whole, here.trans (Nat.zero_add _), accepted⟩

/-- The text in front of the furthest failure is one that an accepted source begins with. -/
theorem viable_furthest (source : List Char) :
    ∃ before after completion, source = before ++ after ∧
      Text.byteLength before = (Grammar.read source).trace.furthest.offset ∧
      (Grammar.read (before ++ completion)).result.isSome = true := by
  rcases offset_furthest (Grammar.read source).trace with start | listed
  · obtain ⟨completion, accepted⟩ := accepted_sample
    exact ⟨[], source, completion, rfl, by rw [start]; rfl, accepted⟩
  · obtain ⟨before, after, completion, split, place, accepted⟩ := viable_of_mem_offsets listed
    exact ⟨before, after, completion, split, place.symm, accepted⟩

theorem exists_unexpectedIn (source : List Char) (trace : Trace) : ∃ fault,
    unexpectedIn source trace = .unexpected fault ∧ fault.offset = trace.furthest.offset ∧
      fault.sourceLength = Text.byteLength source ∧
      fault.position = Text.positionAt source fault.offset :=
  ⟨_, rfl, rfl, rfl, rfl⟩

end Grammar

namespace Chain

open Grammar

/-- A source that the grammar refuses has an error that names the furthest place a rule has
failed in.  The text before it is one that an accepted source begins with. -/
theorem parse_refused {source : String} (refused : (Grammar.read source.toList).result = none) :
    ∃ fault, Chain.parse source = .error (.unexpected fault) ∧
      fault.offset = (Grammar.read source.toList).trace.furthest.offset ∧
      fault.position = Text.positionAt source.toList fault.offset ∧
      ∃ before after completion, source.toList = before ++ after ∧
        Text.byteLength before = fault.offset ∧
        (Grammar.read (before ++ completion)).result.isSome = true := by
  obtain ⟨fault, shape, offset, _, position⟩ :=
    exists_unexpectedIn source.toList (Grammar.read source.toList).trace
  have answer : Chain.parse source = .error (.unexpected fault) := by
    rw [parse_eq, refused, ← shape]
  exact ⟨fault, answer, offset, position, offset ▸ viable_furthest source.toList⟩

/-- A source without a value behind its last relation. -/
def unfinishedSource : String := "[id=\"a\"] < [id=]"

theorem parse_refused_unfinishedSource :
    (Grammar.read unfinishedSource.toList).result = none ∧
    ∃ fault, Chain.parse unfinishedSource = .error (.unexpected fault) ∧
      fault.offset = (Grammar.read unfinishedSource.toList).trace.furthest.offset ∧
      fault.position = Text.positionAt unfinishedSource.toList fault.offset ∧
      ∃ before after completion, unfinishedSource.toList = before ++ after ∧
        Text.byteLength before = fault.offset ∧
        (Grammar.read (before ++ completion)).result.isSome = true := by
  have refused : (Grammar.read unfinishedSource.toList).result = none := by
    have none : (Grammar.read unfinishedSource.toList).result.isSome = false := by decide +kernel
    exact Option.not_isSome_iff_eq_none.mp (Bool.eq_false_iff.mp none)
  exact ⟨refused, parse_refused refused⟩

example : Text.positionAt "[id=]".toList (Grammar.read "[id=]".toList).trace.furthest.offset =
    ⟨1, 5⟩ := by
  decide +kernel

end Chain

end TreeSelector

import TreeSelector.Proofs.Grammar.Wordings
import TreeSelector.Proofs.Language.Unplaced

/-!
# No superfluous parentheses

The canonical text of a predicate has parentheses only where they matter: without any one
pair of them, another predicate is read.  Whatever is read off a text needs no more pairs in
its own canonical text than the text has, so a text with a pair less than the canonical one
cannot be read as the same predicate, however the operators around it group.
-/

namespace TreeSelector

open Grammar (Junction Joint Wording)

/-- What the canonical text of a predicate is made of.  The parentheses of calls are part of
the comparisons. -/
inductive Piece where
  | opening
  | closing
  | sign (junction : Junction)
  | leaf (comparison : Comparison)
  deriving DecidableEq

namespace Piece

def chars : Piece → List Char
  | opening => ['(']
  | closing => [')']
  | sign .conjunction => [' ', '&', '&', ' ']
  | sign .disjunction => [' ', '|', '|', ' ']
  | leaf comparison => comparison.render.toList

def spell (pieces : List Piece) : List Char := pieces.flatMap chars

/-- How far a piece leads into parentheses. -/
def rise : Piece → Int
  | opening => 1
  | closing => -1
  | sign _ | leaf _ => 0

/-- How far some pieces lead into parentheses. -/
def depth : List Piece → Int
  | [] => 0
  | piece :: pieces => piece.rise + depth pieces

/-- Every parenthesis among the pieces has its counterpart among them. -/
structure Balanced (pieces : List Piece) : Prop where
  inside : ∀ front, front <+: pieces → 0 ≤ depth front
  closed : depth pieces = 0

/-- The number of pairs of parentheses. -/
def pairs (pieces : List Piece) : Nat := pieces.count opening

def enclose (wrapped : Bool) (pieces : List Piece) : List Piece :=
  if wrapped then opening :: (pieces ++ [closing]) else pieces

end Piece

open Piece (spell depth pairs Balanced)

/-- The canonical text of a predicate, piece by piece. -/
def Predicate.pieces : Predicate → List Piece
  | compare comparison => [.leaf comparison]
  | and left right =>
      Piece.enclose (left.precedence < 2) left.pieces ++
        .sign .conjunction :: Piece.enclose (right.precedence ≤ 2) right.pieces
  | or left right =>
      Piece.enclose (left.precedence < 1) left.pieces ++
        .sign .disjunction :: Piece.enclose (right.precedence ≤ 1) right.pieces

namespace Piece

section Texts

variable {pieces pieces' : List Piece}

@[simp]
theorem spell_append : spell (pieces ++ pieces') = spell pieces ++ spell pieces' :=
  List.flatMap_append

@[simp]
theorem spell_cons (piece : Piece) : spell (piece :: pieces) = piece.chars ++ spell pieces :=
  List.flatMap_cons

theorem spell_enclose (wrapped : Bool) {text : String} (spelled : spell pieces = text.toList) :
    spell (enclose wrapped pieces) = (Predicate.parenthesize wrapped text).toList := by
  cases wrapped with
  | false => exact spelled
  | true =>
      rw [enclose, if_pos rfl, spell_cons, spell_append, spelled]
      simp [Predicate.parenthesize, chars, spell]

/-- The pieces of a predicate spell its canonical text. -/
theorem spell_pieces (predicate : Predicate) :
    spell predicate.pieces = predicate.render.toList := by
  induction predicate with
  | compare comparison => exact List.append_nil _
  | and left right hypothesis hypothesis' =>
      have left := spell_enclose (left.precedence < 2) hypothesis
      have right := spell_enclose (right.precedence ≤ 2) hypothesis'
      rw [Predicate.pieces, spell_append, spell_cons, left, right, Predicate.render,
        String.toList_append, String.toList_append, List.append_assoc]
      rfl
  | or left right hypothesis hypothesis' =>
      have left := spell_enclose (left.precedence < 1) hypothesis
      have right := spell_enclose (right.precedence ≤ 1) hypothesis'
      rw [Predicate.pieces, spell_append, spell_cons, left, right, Predicate.render,
        String.toList_append, String.toList_append, List.append_assoc]
      rfl

end Texts

section Depths

variable {pieces pieces' : List Piece}

@[simp]
theorem depth_nil : depth [] = 0 := rfl

@[simp]
theorem depth_cons (piece : Piece) : depth (piece :: pieces) = piece.rise + depth pieces := rfl

@[simp]
theorem depth_append : depth (pieces ++ pieces') = depth pieces + depth pieces' := by
  induction pieces with
  | nil => simp
  | cons piece pieces hypothesis => simp [hypothesis, Int.add_assoc]

@[simp]
theorem pairs_append : pairs (pieces ++ pieces') = pairs pieces + pairs pieces' :=
  List.count_append

@[simp]
theorem pairs_sign (junction : Junction) : pairs (.sign junction :: pieces) = pairs pieces := by
  simp [pairs]

theorem Balanced.single {piece : Piece} (flat : piece.rise = 0) : Balanced [piece] where
  inside := by
    intro front leads
    rcases List.prefix_cons_iff.mp leads with rfl | ⟨rest, rfl, ends⟩
    · exact Int.le_refl 0
    · obtain rfl := List.prefix_nil.mp ends
      simp [flat]
  closed := by simp [flat]

/-- The first pieces of two rows are the first ones of the first row, or all of them and the
first ones of the second row. -/
theorem prefix_append_cases {front : List Piece} (leads : front <+: pieces ++ pieces') :
    front <+: pieces ∨ ∃ front', front' <+: pieces' ∧ front = pieces ++ front' := by
  rcases List.prefix_or_prefix_of_prefix leads (List.prefix_append pieces pieces') with
    inside | ⟨front', rfl⟩
  · exact .inl inside
  · exact .inr ⟨front', (List.prefix_append_right_inj pieces).mp leads, rfl⟩

theorem Balanced.append (balanced : Balanced pieces) (balanced' : Balanced pieces') :
    Balanced (pieces ++ pieces') where
  inside := by
    intro front leads
    rcases prefix_append_cases leads with first | ⟨front', second, rfl⟩
    · exact balanced.inside front first
    · rw [depth_append, balanced.closed, Int.zero_add]
      exact balanced'.inside front' second
  closed := by rw [depth_append, balanced.closed, balanced'.closed]; rfl

theorem Balanced.enclosed (balanced : Balanced pieces) :
    Balanced (opening :: (pieces ++ [closing])) where
  inside := by
    intro front leads
    rcases List.prefix_cons_iff.mp leads with rfl | ⟨rest, rfl, behind⟩
    · exact Int.le_refl 0
    · rcases prefix_append_cases behind with within | ⟨last, ends, rfl⟩
      · have here := balanced.inside rest within
        rw [depth_cons, rise]
        omega
      · rcases List.prefix_cons_iff.mp ends with rfl | ⟨last, rfl, none⟩
        · simp [balanced.closed, rise]
        · obtain rfl := List.prefix_nil.mp none
          simp [balanced.closed, rise]
  closed := by simp [balanced.closed, rise]

end Depths

/-- Pieces that can be read as a predicate, with any parentheses around any part of it. -/
inductive IsPhrase : List Piece → Prop where
  | single {comparison : Comparison} (canonical : comparison.IsCanonical) :
      IsPhrase [.leaf comparison]
  | grouped {pieces : List Piece} (phrase : IsPhrase pieces) :
      IsPhrase (opening :: (pieces ++ [closing]))
  | joined {left right : List Piece} (phrase : IsPhrase left) (junction : Junction)
      (phrase' : IsPhrase right) : IsPhrase (left ++ .sign junction :: right)

namespace IsPhrase

theorem enclose {pieces : List Piece} (phrase : IsPhrase pieces) (wrapped : Bool) :
    IsPhrase (enclose wrapped pieces) := by
  cases wrapped with
  | false => exact phrase
  | true => exact .grouped phrase

theorem pieces {predicate : Predicate} (canonical : predicate.IsCanonical) :
    IsPhrase predicate.pieces := by
  induction predicate with
  | compare comparison => exact .single canonical
  | and left right hypothesis hypothesis' =>
      exact .joined ((hypothesis canonical.1).enclose _) .conjunction
        ((hypothesis' canonical.2).enclose _)
  | or left right hypothesis hypothesis' =>
      exact .joined ((hypothesis canonical.1).enclose _) .disjunction
        ((hypothesis' canonical.2).enclose _)

theorem balanced {pieces : List Piece} (phrase : IsPhrase pieces) : Balanced pieces := by
  induction phrase with
  | single => exact .single rfl
  | grouped _ hypothesis => exact hypothesis.enclosed
  | joined _ junction _ hypothesis hypothesis' =>
      exact hypothesis.append ((@Balanced.single (.sign junction) rfl).append hypothesis')

/-- A closing parenthesis in front of a last one is that one, or comes before it. -/
theorem split_last {pieces front back : List Piece}
    (cut : pieces ++ [closing] = front ++ closing :: back) :
    front = pieces ∧ back = [] ∨
      ∃ back', pieces = front ++ closing :: back' ∧ back = back' ++ [closing] := by
  rcases List.append_eq_append_iff.mp cut with ⟨between, rfl, last⟩ | ⟨between, rfl, last⟩
  · cases between with
    | nil => exact .inl ⟨List.append_nil _, (List.cons.inj last).2.symm⟩
    | cons piece between => simp at last
  · cases between with
    | nil => exact .inl ⟨(List.append_nil _).symm, (List.cons.inj last).2⟩
    | cons piece between =>
        obtain ⟨rfl, rest⟩ := List.cons.inj last
        exact .inr ⟨between, rfl, rest⟩

/-- Pieces can still be read without one pair of parentheses. -/
theorem without_pair {pieces : List Piece} (phrase : IsPhrase pieces)
    {front inside back : List Piece}
    (cut : pieces = front ++ opening :: (inside ++ closing :: back))
    (balanced : Balanced inside) : IsPhrase (front ++ (inside ++ back)) := by
  have closed := balanced.closed
  induction phrase generalizing front back with
  | single => cases front with
    | nil => cases cut
    | cons first front => simp at cut
  | @grouped pieces phrase hypothesis =>
      have whole := phrase.balanced
      cases front with
      | nil =>
          rcases split_last (List.cons.inj cut).2 with ⟨rfl, rfl⟩ | ⟨back', rfl, rfl⟩
          · rwa [List.nil_append, List.append_nil]
          · -- the parenthesis behind `inside` would have no counterpart in the group
            have early := whole.inside (inside ++ [closing]) ⟨back', by simp⟩
            simp [closed, rise] at early
      | cons first front =>
          obtain rfl := (List.cons.inj cut).1
          have cut : pieces ++ [closing] = (front ++ opening :: inside) ++ closing :: back := by
            simpa using (List.cons.inj cut).2
          rcases split_last cut with ⟨rfl, rfl⟩ | ⟨back', shape, rfl⟩
          · -- the opening parenthesis of the pair would have no counterpart in the group
            have before := whole.inside front (List.prefix_append _ _)
            have all := whole.closed
            simp only [depth_append, depth_cons, closed, rise] at all
            omega
          · have shorter := hypothesis (shape.trans (List.append_assoc _ _ _))
            have phrase := grouped shorter
            simpa using phrase
  | @joined left right phrase junction phrase' hypothesis hypothesis' =>
      rcases List.append_eq_append_iff.mp cut with ⟨between, rfl, rest⟩ | ⟨between, rfl, rest⟩
      · cases between with
        | nil => cases rest
        | cons piece between =>
            obtain ⟨rfl, behind⟩ := List.cons.inj rest
            have shorter := joined phrase junction (hypothesis' behind)
            simpa using shorter
      · cases between with
        | nil => cases rest
        | cons piece between =>
            obtain ⟨rfl, behind⟩ := List.cons.inj rest
            rcases List.append_eq_append_iff.mp behind with ⟨more, rfl, ends⟩ | ⟨more, rfl, _⟩
            · cases more with
              | nil => cases ends
              | cons piece more =>
                  obtain ⟨rfl, rfl⟩ := List.cons.inj ends
                  have shorter := joined (hypothesis rfl) junction phrase'
                  simpa using shorter
            · -- the left operand would have an opening parenthesis without its counterpart
              have before := phrase.balanced.inside front (List.prefix_append _ _)
              have within := balanced.inside between (List.prefix_append _ _)
              have all := phrase.balanced.closed
              rw [depth_append, depth_cons, rise] at all
              omega

end IsPhrase

end Piece

namespace Grammar

open Reader

section Regrouping

/-- The joint of canonical text. -/
def Joint.spaced (junction : Junction) : Joint := ⟨junction, false, [' '], [' ']⟩

theorem Joint.isSetOff_spaced (junction : Junction) : (Joint.spaced junction).IsSetOff :=
  ⟨List.forall_mem_singleton.mpr rfl, List.forall_mem_singleton.mpr rfl, nofun⟩

/-- The number of pairs of parentheses. -/
def Wording.pairs : Wording → Nat
  | bare _ _ => 0
  | grouped _ inner _ => inner.pairs + 1
  | joined left _ right => left.pairs + right.pairs

theorem Wording.one_le_precedence (wording : Wording) : 1 ≤ wording.precedence := by
  cases wording with
  | bare | grouped => exact Nat.le_add_left 1 2
  | joined _ joint _ =>
      cases shape : joint.junction <;> simp [precedence, shape, Junction.precedence]

namespace Wording.IsProper

variable {left right : Wording} {joint : Joint}

/-- A term can be written behind any wording: it is joined to all of it, or to the last operand
of the disjunction that it is. -/
theorem exists_joinedTerm (proper : left.IsProper) (setOff : joint.IsSetOff)
    (proper' : right.IsProper) (tight : 2 < right.precedence) :
    ∃ whole : Wording, whole.IsProper ∧ whole.text = left.text ++ (joint.text ++ right.text) ∧
      whole.pairs = left.pairs + right.pairs := by
  have binds : joint.junction.precedence < right.precedence := by
    cases joint.junction with
    | conjunction => exact tight
    | disjunction => exact Nat.lt_trans (Nat.lt_succ_self 1) tight
  by_cases fits : joint.junction.precedence ≤ left.precedence
  · exact ⟨.joined left joint right, .joined proper setOff proper' fits binds, rfl, rfl⟩
  · cases shape : joint.junction with
    | disjunction =>
        exact absurd (shape ▸ left.one_le_precedence) fits
    | conjunction =>
        rw [shape] at fits binds
        cases proper with
        | bare | grouped => exact absurd (Nat.le_succ 2) fits
        | @joined first last joint' properFirst setOff' properLast tightFirst tightLast =>
            cases shape' : joint'.junction with
            | conjunction => simp [Wording.precedence, shape', Junction.precedence] at fits
            | disjunction =>
                rw [shape'] at tightLast
                have inner : (Wording.joined last joint right).IsProper :=
                  .joined properLast setOff proper' (shape ▸ tightLast) (shape ▸ binds)
                have looser : joint'.junction.precedence <
                    (Wording.joined last joint right).precedence := by
                  simp [Wording.precedence, shape, shape', Junction.precedence]
                refine ⟨.joined first joint' (.joined last joint right),
                  .joined properFirst setOff' inner tightFirst looser, ?_, ?_⟩
                · simp [Wording.text]
                · simp [Wording.pairs, Nat.add_assoc]

/-- Two wordings can be written with a joint between them, if it is left to precedence what the
operands of the joint are. -/
theorem exists_joined (proper : left.IsProper) (setOff : joint.IsSetOff)
    (proper' : right.IsProper) :
    ∃ whole : Wording, whole.IsProper ∧ whole.text = left.text ++ (joint.text ++ right.text) ∧
      whole.pairs = left.pairs + right.pairs := by
  induction proper' generalizing left joint with
  | bare reads => exact exists_joinedTerm proper setOff (.bare reads) (Nat.lt_succ_self 2)
  | grouped blankFront inner blankBack =>
      have group := IsProper.grouped blankFront inner blankBack
      exact exists_joinedTerm proper setOff group (Nat.lt_succ_self 2)
  | joined _ setOff' _ _ _ hypothesis hypothesis' =>
      obtain ⟨front, properFront, textFront, pairsFront⟩ := hypothesis proper setOff
      obtain ⟨whole, properWhole, text, pairs⟩ := hypothesis' properFront setOff'
      refine ⟨whole, properWhole, ?_, ?_⟩
      · rw [text, textFront, Wording.text, List.append_assoc, List.append_assoc]
      · rw [pairs, pairsFront, Wording.pairs, Nat.add_assoc]

end Wording.IsProper

/-- Pieces that can be read as a predicate are a way of writing one. -/
theorem exists_wording {pieces : List Piece} (phrase : Piece.IsPhrase pieces) :
    ∃ wording : Wording, wording.IsProper ∧ wording.text = spell pieces ∧
      wording.pairs = pairs pieces := by
  induction phrase with
  | @single comparison canonical =>
      refine ⟨_, .bare (readsComparison_render canonical), ?_, rfl⟩
      exact (List.append_nil _).symm
  | @grouped pieces phrase hypothesis =>
      obtain ⟨inner, proper, text, pairs⟩ := hypothesis
      refine ⟨.grouped [] inner [], .grouped nofun proper nofun, ?_, ?_⟩
      · simp [Wording.text, Piece.chars, spell, text]
      · simp [Wording.pairs, Piece.pairs, pairs]
  | @joined left right _ junction _ hypothesis hypothesis' =>
      obtain ⟨first, proper, text, pairs⟩ := hypothesis
      obtain ⟨second, proper', text', pairs'⟩ := hypothesis'
      have setOff := Joint.isSetOff_spaced junction
      obtain ⟨whole, properWhole, written, counted⟩ := proper.exists_joined setOff proper'
      refine ⟨whole, properWhole, ?_, ?_⟩
      · rw [written, text, text']
        cases junction <;> simp [Joint.text, Joint.spaced, Joint.spelling, Piece.chars]
      · rw [counted, pairs, pairs']
        simp [Piece.pairs]

end Regrouping

section Counting

theorem pairs_enclose (wrapped : Prop) [Decidable wrapped] (pieces : List Piece) :
    pairs (Piece.enclose wrapped pieces) = pairs pieces + if wrapped then 1 else 0 := by
  by_cases needed : wrapped <;> simp [Piece.enclose, pairs, needed]

theorem pairs_join (junction : Junction) (left right : Predicate) :
    pairs (junction.join left right).pieces =
      (pairs left.pieces + if left.precedence < junction.precedence then 1 else 0) +
        (pairs right.pieces + if right.precedence ≤ junction.precedence then 1 else 0) := by
  cases junction with
  | conjunction =>
      rw [Junction.join, Predicate.pieces, Piece.pairs_append, Piece.pairs_sign, pairs_enclose,
        pairs_enclose]
      rfl
  | disjunction =>
      rw [Junction.join, Predicate.pieces, Piece.pairs_append, Piece.pairs_sign, pairs_enclose,
        pairs_enclose]
      rfl

theorem precedence_join (junction : Junction) (left right : Predicate) :
    (junction.join left right).precedence = junction.precedence := by
  cases junction <;> rfl

/-- However a predicate is written, its canonical text has as few pairs of parentheses, and one
less if the wording binds tighter than the predicate. -/
theorem pairs_le_of_isProper {wording : Wording} (proper : wording.IsProper) :
    (pairs wording.predicate.pieces +
      if wording.predicate.precedence < wording.precedence then 1 else 0) ≤ wording.pairs := by
  induction proper with
  | bare => simp [Wording.predicate, Wording.precedence, Predicate.precedence, Wording.pairs,
      Predicate.pieces, pairs]
  | grouped _ _ _ hypothesis =>
      rw [Wording.predicate, Wording.pairs]
      split at hypothesis <;> split <;> omega
  | @joined left right joint _ _ _ tightLeft tightRight hypothesis hypothesis' =>
      rw [Wording.predicate, Wording.precedence, precedence_join, if_neg (Nat.lt_irrefl _),
        pairs_join, Wording.pairs]
      split at hypothesis <;> split at hypothesis' <;> split <;> split <;> omega

end Counting

section Reading

/-- A segment of which the source consists is what is read. -/
theorem parse_single {segment : Segment} {source : String} (unbounded : segment.window = none)
    (solid : strip source.toList = source.toList)
    (reads : (Grammar.segment (source.toList.length + 1)).Reads source.toList
      fun value rest => Checked.Agrees Segment.unplaced segment value ∧ strip rest = []) :
    ∃ value, Chain.parse source = .ok (.last value) ∧ value.unplaced = segment.unplaced := by
  have whole : (writtenSelector (source.toList.length + 1)).Reads source.toList
      fun found _ => Checked.Agrees Segment.unplaced segment found.1 ∧ found.2 = [] := by
    refine .rule (.afterBlanks fun _ => ?_)
    rw [solid]
    refine reads.bind fun value rest holds => .afterBlanks fun _ => ?_
    have others := @others_read (source.toList.length + 1) [] (List.forall_mem_nil _)
      (List.forall_mem_nil _)
    rw [holds.2]
    refine others.bind fun values rest' all => .afterBlanks fun _ => ?_
    have finished : endOfInput.Reads [] fun _ _ => True := .token rfl fun _ => trivial
    rw [all.2]
    exact finished.bind fun _ _ _ => .pure ⟨holds.1, List.forall₂_nil_left_iff.mp all.1⟩
  obtain ⟨⟨first, others⟩, _, ⟨⟨value, rfl, same⟩, rfl⟩, parsed⟩ := parse_of_reads whole
  have window : value.window = none := (congrArg Segment.window same).trans unbounded
  obtain ⟨target, predicate, _, span⟩ := value
  obtain rfl := window
  exact ⟨⟨target, predicate, none, span⟩, parsed, same⟩

/-- A wording in brackets is read as the predicate that is written. -/
theorem parse_bracketed {wording : Wording} (proper : wording.IsProper) :
    ∃ predicate span, Chain.parse (String.ofList ('[' :: (wording.text ++ [']']))) =
        .ok (.last ⟨false, predicate, none, span⟩) ∧
      predicate.unplaced = wording.predicate.unplaced := by
  let segment : Segment := ⟨false, wording.predicate, none, .nowhere⟩
  have solid : strip ('[' :: (wording.text ++ [']'])) = '[' :: (wording.text ++ [']']) :=
    strip_cons (by decide) _
  have written : '[' :: (wording.text ++ [']']) =
      textAround segment ([] ++ (wording.text ++ [])) ++ [] := by
    simp [textAround, windowText, segment]
  have ordered : ∀ window ∈ segment.window, window.IsOrdered := by simp [segment]
  have deep : wording.text.length < ('[' :: (wording.text ++ [']'])).length + 1 := by
    rw [List.length_cons, List.length_append]
    omega
  have reads := @segment_readsWording _ segment ordered wording proper rfl deep [] []
    (List.forall_mem_nil _) (List.forall_mem_nil _) [] (by simp [strip])
  rw [← written] at reads
  obtain ⟨⟨target, predicate, window, span⟩, parsed, same⟩ :=
    @parse_single segment (String.ofList ('[' :: (wording.text ++ [']']))) rfl
      (by rwa [String.toList_ofList]) (by rw [String.toList_ofList]; exact reads)
  obtain ⟨rfl, samePredicate, rfl, _⟩ := Segment.mk.inj same
  exact ⟨predicate, span, parsed, samePredicate⟩

end Reading

end Grammar

namespace Predicate

theorem pairs_unplaced (predicate : Predicate) :
    pairs predicate.unplaced.pieces = pairs predicate.pieces := by
  induction predicate with
  | compare => rfl
  | and left right hypothesis hypothesis' =>
      simp [unplaced, pieces, Grammar.pairs_enclose, hypothesis, hypothesis']
  | or left right hypothesis hypothesis' =>
      simp [unplaced, pieces, Grammar.pairs_enclose, hypothesis, hypothesis']

/-- The canonical text of a predicate has no superfluous parentheses: without any one of its
pairs it is still a predicate that is read, but another one. -/
theorem parse_without_pair {predicate : Predicate} (canonical : predicate.IsCanonical)
    {front inside back : List Piece}
    (cut : predicate.pieces = front ++ .opening :: (inside ++ .closing :: back))
    (balanced : Balanced inside) :
    predicate.render.toList = spell front ++ '(' :: (spell inside ++ ')' :: spell back) ∧
      ∃ other span,
        Chain.parse (String.ofList ('[' :: (spell front ++ (spell inside ++ spell back) ++ [']']))) =
            .ok (.last ⟨false, other, none, span⟩) ∧
          other.unplaced ≠ predicate.unplaced := by
  refine ⟨?_, ?_⟩
  · rw [← Piece.spell_pieces, cut]
    simp [Piece.chars]
  · have phrase := (Piece.IsPhrase.pieces canonical).without_pair cut balanced
    obtain ⟨wording, proper, text, counted⟩ := Grammar.exists_wording phrase
    obtain ⟨other, span, parsed, same⟩ := Grammar.parse_bracketed proper
    rw [text, Piece.spell_append, Piece.spell_append] at parsed
    refine ⟨other, span, parsed, fun identical => ?_⟩
    have needed := Grammar.pairs_le_of_isProper proper
    rw [← pairs_unplaced, ← same, identical, pairs_unplaced, counted, cut] at needed
    simp [pairs] at needed
    omega

/-- The parentheses around a disjunction in a conjunction: without them the conjunction is an
operand of the disjunction. -/
theorem parse_without_group :
    let first : Comparison :=
      ⟨.reference (.known .parent) ⟨1, 7⟩, .equal, .null ⟨8, 12⟩, ⟨1, 13⟩⟩
    let second : Comparison :=
      ⟨.reference (.known .depth) ⟨17, 22⟩, .less, .integer 3 ⟨23, 24⟩, ⟨17, 25⟩⟩
    let third : Comparison :=
      ⟨.reference (.known .index) ⟨28, 33⟩, .moreEqual, .integer 1 ⟨35, 36⟩, ⟨28, 36⟩⟩
    let predicate := Predicate.and (.compare first) (.or (.compare second) (.compare third))
    (predicate.IsCanonical ∧ Balanced [.leaf second, .sign .disjunction, .leaf third]) ∧
      predicate.render = "parent=null && (depth<3 || index>=1)" ∧
      ∃ other span, Chain.parse "[parent=null && depth<3 || index>=1]" =
          .ok (.last ⟨false, other, none, span⟩) ∧
        other.unplaced ≠ predicate.unplaced := by
  intro first second third predicate
  have parsed : Chain.parse "[parent=null && (depth<3 || index>=1)]" =
      .ok (.last ⟨false, predicate, none, ⟨0, 38⟩⟩) := by
    decide +kernel
  have canonical := (Chain.isCanonical_of_parse parsed).1.predicate
  have inside := Piece.IsPhrase.joined (.single canonical.2.1) .disjunction (.single canonical.2.2)
  have cut : predicate.pieces = [.leaf first, .sign .conjunction] ++
      .opening :: ([.leaf second, .sign .disjunction, .leaf third] ++ .closing :: []) := rfl
  obtain ⟨_, other, span, without, differs⟩ := parse_without_pair canonical cut inside.balanced
  have written : '[' :: (spell [.leaf first, .sign .conjunction] ++
      (spell [.leaf second, .sign .disjunction, .leaf third] ++ spell []) ++ [']']) =
        "[parent=null && depth<3 || index>=1]".toList := by
    decide +kernel
  rw [written, String.ofList_toList] at without
  refine ⟨⟨canonical, inside.balanced⟩, ?_, other, span, without, differs⟩
  decide +kernel

end Predicate

end TreeSelector

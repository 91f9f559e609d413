import TreeSelector.Eval.Method
import TreeSelector.Proofs.Text.Denotations

/-!
# Integers as texts and back

An integer is written in a radix as the shortest text that denotes it there, and is read back
from it.  A text that denotes no 32-bit integer is read as null.
-/

namespace TreeSelector

namespace Method

open Text.Radix (Denotes Writes)

theorem radix?_of_le {radix : Int32} (least : 2 ≤ radix) (most : radix ≤ 36) :
    radix? radix = some radix.toInt.toNat ∧ 2 ≤ radix.toInt.toNat ∧ radix.toInt.toNat ≤ 36 := by
  have low : 2 ≤ radix.toInt := Int32.le_iff_toInt_le.mp least
  have high : radix.toInt ≤ 36 := Int32.le_iff_toInt_le.mp most
  exact ⟨if_pos ⟨least, most⟩, by omega, by omega⟩

/-- Exactly the texts that denote a 32-bit integer are read as one, and all others as null. -/
theorem parse_eq_iff (radix : Nat) (chars : List Char) :
    (∀ value : Int32, parse radix chars = .int value ↔ Denotes radix chars value.toInt) ∧
      (parse radix chars = .null ↔ ∀ value : Int32, ¬ Denotes radix chars value.toInt) := by
  have read : ∀ value : Int32, (Text.Radix.integer? radix chars).bind Text.int32? = some value ↔
      Denotes radix chars value.toInt := by
    intro value
    simp only [Option.bind_eq_some_iff, Text.int32?_eq_some_iff, exists_eq_right',
      Text.Radix.integer?_eq_some_iff]
  simp only [← read]
  unfold parse
  cases (Text.Radix.integer? radix chars).bind Text.int32? <;> simp [Value.orNull]

/-- For every radix from 2 to 36, an integer is written as the shortest text that denotes it
and is read back from that text, and a text is read as null unless it denotes a 32-bit
integer.  Where no radix is given it is ten. -/
theorem toInt_toText (value radix : Int32) (least : 2 ≤ radix) (most : radix ≤ 36) :
    let base := radix.toInt.toNat
    (∃ text : String, ofPlain (.int value) .toText [.int radix] = .string text ∧
      Writes base value.toInt text.toList ∧
      ofPlain (.string text) .toInt [.int radix] = .int value) ∧
    ofPlain (.int value) .toText [] = ofPlain (.int value) .toText [.int 10] ∧
    ∀ text : String,
      ofPlain (.string text) .toInt [] = ofPlain (.string text) .toInt [.int 10] ∧
      (∀ read : Int32, ofPlain (.string text) .toInt [.int radix] = .int read ↔
        Denotes base text.toList read.toInt) ∧
      (ofPlain (.string text) .toInt [.int radix] = .null ↔
        ∀ read : Int32, ¬ Denotes base text.toList read.toInt) := by
  intro base
  obtain ⟨given, binary, bounded⟩ := radix?_of_le least most
  have parsed : ∀ text : String,
      ofPlain (.string text) .toInt [.int radix] = parse base text.toList := by
    intro text
    change ofString text .toInt [.int radix] = _
    delta ofString
    simp only [given, base]
  refine ⟨⟨String.ofList (Text.Radix.integerText base value.toInt), ?_, ?_, ?_⟩, rfl,
    fun text => ⟨rfl, ?_⟩⟩
  · simp only [ofPlain, ofInt, given, textOf, base]
  · rw [String.toList_ofList]
    exact Text.Radix.writes_integerText binary bounded value.toInt
  · rw [parsed, (parse_eq_iff base _).1, String.toList_ofList]
    exact (Text.Radix.writes_integerText binary bounded value.toInt).denotes
  · rw [parsed]
    exact parse_eq_iff base text.toList

/-- The least integer in the greatest radix. -/
theorem toInt_toText_least :
    ofPlain (.int (-2147483648)) .toText [.int 36] = .string "-zik0zk" ∧
      ofPlain (.string "-zik0zk") .toInt [.int 36] = .int (-2147483648) := by
  obtain ⟨⟨text, written, _, read⟩, _⟩ :=
    toInt_toText (-2147483648) 36 (by decide) (by decide)
  have known : ofPlain (.int (-2147483648)) .toText [.int 36] = .string "-zik0zk" := by
    decide +kernel
  obtain rfl := Value.string.inj (written.symm.trans known)
  exact ⟨written, read⟩

end Method

end TreeSelector

import TreeSelector.Text.LetterTable

/-!
# Lower case

The full Unicode lower-case mapping of a text.  Every character maps on its own
except a capital sigma, which becomes a final sigma at the end of a word.
-/

namespace TreeSelector.Text

/-- The lower-case form of one character, context aside. -/
def lowercaseChar (char : Char) : List Char :=
  if char.toNat < 128 then [char.toLower]
  else if char = 'İ' then ['i', Char.ofNat 0x307]
  else
    match LetterTable.lowercaseShifts.find? (·.covers char.toNat) with
    | some entry => [Char.ofNat ((char.toNat : Int) + entry.shift).toNat]
    | none => [char]

def isCased (char : Char) : Bool :=
  LetterTable.inRanges LetterTable.casedRanges char.toNat

/-- Whether a character is looked through when the case of its word is at stake. -/
def isCaseIgnorable (char : Char) : Bool :=
  LetterTable.inRanges LetterTable.caseIgnorableRanges char.toNat

/-- Whether a cased letter comes first once ignorable characters are dropped. -/
def leadsToCased (chars : List Char) : Bool :=
  match chars.dropWhile isCaseIgnorable with
  | [] => false
  | char :: _ => isCased char

/-- The lower-case form of the rest of a text; `before` holds the characters
already passed, the nearest first. -/
def lowercaseAfter (before : List Char) : List Char → List Char
  | [] => []
  | char :: rest =>
      let lower :=
        if char = 'Σ' then
          if leadsToCased before && !leadsToCased rest then ['ς'] else ['σ']
        else lowercaseChar char
      lower ++ lowercaseAfter (char :: before) rest

def lowercaseChars (text : List Char) : List Char :=
  lowercaseAfter [] text

def lowercase (text : String) : String :=
  String.ofList (lowercaseChars text.toList)

end TreeSelector.Text

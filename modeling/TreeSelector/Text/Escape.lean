import TreeSelector.Text.Radix
import TreeSelector.Text.Search

/-!
# Escapes in string literals

The body of a literal stands for its characters, except that a backslash opens
one of the escapes `\\ \" \' \n \r \t \b \xHH \uHHHH`.  `decode` reads a body
and reports the first escape that is none of these; `quote` writes a literal
that reads back to the same text.
-/

namespace TreeSelector.Text.Escape

/-- A backslash sequence that is no escape, with its byte range in the body. -/
structure BadEscape where
  sequence : String
  start : Nat
  stop : Nat
  deriving DecidableEq, Repr

/-- The escapes that are a backslash and one letter. -/
def simple? : Char → Option Char
  | '\\' => some '\\'
  | '"' => some '"'
  | '\'' => some '\''
  | 'n' => some '\n'
  | 'r' => some '\r'
  | 't' => some '\t'
  | 'b' => some '\x08'
  | _ => none

/-- How many hexadecimal digits follow the letter of a numeric escape. -/
def hexWidth? : Char → Option Nat
  | 'x' => some 2
  | 'u' => some 4
  | _ => none

/-- The character with a given code, which surrogate codes do not have. -/
def scalar? (code : Nat) : Option Char :=
  if code.isValidChar then some (Char.ofNat code) else none

/-- The character that exactly `width` hexadecimal digits name. -/
def hexScalar? (width : Nat) (digits : List Char) : Option Char :=
  if digits.length = width then (Radix.natural? 16 digits).bind scalar? else none

/-- The text that the body of a literal stands for.  `offset` is the position of
the rest of the body. -/
def decodeFrom (offset : Nat) : List Char → Except BadEscape (List Char)
  | [] => .ok []
  | '\\' :: [] => .error ⟨"\\", offset, offset + 1⟩
  | '\\' :: letter :: rest =>
      match simple? letter with
      | some char => (decodeFrom (offset + 2) rest).map (char :: ·)
      | none =>
          match hexWidth? letter with
          | none =>
              .error ⟨String.ofList ['\\', letter], offset, offset + 1 + letter.utf8Size⟩
          | some width =>
              let digits := rest.take width
              match hexScalar? width digits with
              | none =>
                  .error ⟨String.ofList ('\\' :: letter :: digits), offset,
                    offset + 2 + byteLength digits⟩
              | some char =>
                  (decodeFrom (offset + 2 + width) (rest.drop width)).map (char :: ·)
  | char :: rest => (decodeFrom (offset + char.utf8Size) rest).map (char :: ·)
termination_by body => body.length
decreasing_by all_goals (simp; try omega)

/-- The text that the body of a literal stands for. -/
def decode (body : List Char) : Except BadEscape (List Char) :=
  decodeFrom 0 body

/-- Control characters: the codes below 32 and from 127 to 159. -/
def isControl (char : Char) : Bool :=
  char.toNat < 32 || (127 ≤ char.toNat && char.toNat < 160)

/-- Two hexadecimal digits for a code below 256. -/
def hexPair (code : Nat) : List Char :=
  [Radix.digitChar (code / 16), Radix.digitChar (code % 16)]

/-- The letter of the escape that is written for a character in place of its code. -/
def letter? : Char → Option Char
  | '\\' => some '\\'
  | '"' => some '"'
  | '\n' => some 'n'
  | '\r' => some 'r'
  | '\t' => some 't'
  | '\x08' => some 'b'
  | _ => none

/-- How one character is written inside double quotes. -/
def encodeChar (char : Char) : List Char :=
  match letter? char with
  | some letter => ['\\', letter]
  | none => if isControl char then '\\' :: 'x' :: hexPair char.toNat else [char]

def encode (text : List Char) : List Char :=
  text.flatMap encodeChar

def quote (text : String) : String :=
  String.ofList ('"' :: encode text.toList ++ ['"'])

section ReadingBack

/-- A code below 160 is the one that its two hexadecimal digits name. -/
theorem hexScalar?_hexPair :
    ∀ code < 160, hexScalar? 2 (hexPair code) = some (Char.ofNat code) := by
  decide +kernel

theorem byteLength_hexPair :
    ∀ code < 160, byteLength ('\\' :: 'x' :: hexPair code) = 4 := by
  decide +kernel

theorem simple?_letter {char letter : Char} (written : letter? char = some letter) :
    simple? letter = some char := by
  unfold letter? at written
  split at written <;> cases written <;> rfl

theorem byteLength_letter {char letter : Char} (written : letter? char = some letter) :
    byteLength ['\\', letter] = 2 := by
  unfold letter? at written
  split at written <;> cases written <;> rfl

theorem decodeFrom_simple {offset : Nat} {letter char : Char} {rest : List Char}
    (known : simple? letter = some char) :
    decodeFrom offset ('\\' :: letter :: rest) =
      (decodeFrom (offset + 2) rest).map (char :: ·) := by
  rw [decodeFrom]
  simp [known]

theorem decodeFrom_plain {offset : Nat} {char : Char} {rest : List Char}
    (plain : char ≠ '\\') :
    decodeFrom offset (char :: rest) =
      (decodeFrom (offset + char.utf8Size) rest).map (char :: ·) := by
  rw [decodeFrom] <;> simp [plain]

theorem decodeFrom_hexPair {offset code : Nat} {rest : List Char} (small : code < 160) :
    decodeFrom offset ('\\' :: 'x' :: (hexPair code ++ rest)) =
      (decodeFrom (offset + 4) rest).map (Char.ofNat code :: ·) := by
  have decoded := hexScalar?_hexPair code small
  simp only [hexPair, List.cons_append, List.nil_append] at decoded ⊢
  rw [decodeFrom]
  simp [simple?, hexWidth?, decoded]

/-- What is written for a character reads back to it. -/
theorem decodeFrom_encodeChar (offset : Nat) (char : Char) (rest : List Char) :
    decodeFrom offset (encodeChar char ++ rest) =
      (decodeFrom (offset + byteLength (encodeChar char)) rest).map (char :: ·) := by
  unfold encodeChar
  split
  · rename_i letter written
    rw [byteLength_letter written]
    exact decodeFrom_simple (simple?_letter written)
  · rename_i unwritten
    split
    · rename_i control
      have small : char.toNat < 160 := by
        simp only [isControl, Bool.or_eq_true, Bool.and_eq_true, decide_eq_true_eq] at control
        omega
      rw [byteLength_hexPair char.toNat small, List.cons_append, List.cons_append,
        decodeFrom_hexPair small, Char.ofNat_toNat]
    · have plain : char ≠ '\\' := by
        rintro rfl
        simp [letter?] at unwritten
      simpa [byteLength] using decodeFrom_plain plain

/-- A text can be read back from the body of its literal. -/
theorem decode_encode (text : List Char) : decode (encode text) = .ok text := by
  have general : ∀ offset, decodeFrom offset (encode text) = .ok text := by
    induction text with
    | nil => intro offset; simp [encode, decodeFrom]
    | cons char text hypothesis =>
        intro offset
        have split : encode (char :: text) = encodeChar char ++ encode text := rfl
        rw [split, decodeFrom_encodeChar, hypothesis]
        rfl
  exact general 0

end ReadingBack

end TreeSelector.Text.Escape

import TreeSelector.Text.Lowercase
import TreeSelector.Text.Search

/-!
# Patterns

A pattern is a case-insensitive test for a literal at the start, at the end or
anywhere in a text.  It is written in one of three forms,

* `(?is)literal.*` for a text that begins with the literal,
* `(?is).*literal.*` for a text that contains it,
* `(?is).*literal` for a text that ends with it,

and the literal may hold no character that is special in regular expressions.
-/

namespace TreeSelector

/-- A compiled pattern; its literal is in lower case. -/
inductive Pattern where
  | leading (literal : String)
  | anywhere (literal : String)
  | trailing (literal : String)
  deriving DecidableEq, Repr, Inhabited

namespace Pattern

/-- Whether a character has a meaning of its own in regular expressions. -/
def isSpecial (char : Char) : Bool :=
  "\\^$.?*|+()[]\x7b\x7d".toList.contains char

/-- The text between two fixed ends of a source, if it is a plain literal. -/
def literalBetween? (opening closing : String) (source : List Char) :
    Option (List Char) := do
  let rest ← Text.dropLeading? opening.toList source
  let middle ← Text.dropTrailing? closing.toList rest
  if middle.any isSpecial then none else some middle

/-- The lower-case literal between two fixed ends of a source. -/
def foldedLiteral? (opening closing : String) (source : List Char) : Option String :=
  (literalBetween? opening closing source).map fun middle =>
    String.ofList (Text.lowercaseChars middle)

/-- Reads a pattern, trying its three forms in turn. -/
def compile? (source : String) : Option Pattern :=
  let chars := source.toList
  ((foldedLiteral? "(?is)" ".*" chars).map Pattern.leading).orElse fun _ =>
    ((foldedLiteral? "(?is).*" ".*" chars).map Pattern.anywhere).orElse fun _ =>
      (foldedLiteral? "(?is).*" "" chars).map Pattern.trailing

/-- Whether a text satisfies the pattern, its own case aside. -/
def accepts (pattern : Pattern) (text : String) : Bool :=
  let text := Text.lowercase text
  match pattern with
  | leading literal => Text.beginsWith text literal
  | anywhere literal => Text.contains text literal
  | trailing literal => Text.endsWith text literal

end Pattern

end TreeSelector

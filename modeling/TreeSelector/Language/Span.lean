/-!
# Spans

A span is a range of bytes of the selector source.
-/

namespace TreeSelector

/-- The bytes from `start` up to, but not including, `stop`. -/
structure Span where
  start : Nat
  stop : Nat
  deriving DecidableEq, Repr, Inhabited

namespace Span

/-- The span of a syntax node that was not written anywhere. -/
def nowhere : Span := ⟨0, 0⟩

def through (first second : Span) : Span := ⟨first.start, second.stop⟩

def length (span : Span) : Nat := span.stop - span.start

end Span

end TreeSelector

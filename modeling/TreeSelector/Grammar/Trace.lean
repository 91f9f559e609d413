import TreeSelector.Grammar.Rule

/-!
# Failed attempts and where reading went wrong

Reading a selector leaves a trace of the rules that failed and where they were
tried.  `Trace.furthest` condenses it to the furthest place at which a rule
failed and the rules that would have fitted there.

A rule that fails stands for the rules inside it that failed at the same place,
unless exactly one of them did, which then says more than the rule itself.
-/

namespace TreeSelector.Grammar

/-- The failures met while reading, in order. -/
inductive Trace where
  | silent
  | both (first second : Trace)
  | failed (rule : Rule) (offset : Nat) (inner : Trace)
  deriving Inhabited

/-- The rules that failed at the furthest offset so far, oldest first. -/
structure Attempts where
  offset : Nat
  rules : List Rule
  deriving DecidableEq, Repr

namespace Attempts

def initial : Attempts := ⟨0, []⟩

def countAt (attempts : Attempts) (offset : Nat) : Nat :=
  if offset = attempts.offset then attempts.rules.length else 0

/-- Notes that a rule failed at an offset, in place of all but the first `keep`
failures there; a failure further back is forgotten. -/
def record (attempts : Attempts) (rule : Rule) (offset keep : Nat) : Attempts :=
  if attempts.offset < offset then ⟨offset, [rule]⟩
  else if offset = attempts.offset then ⟨offset, attempts.rules.take keep ++ [rule]⟩
  else attempts

end Attempts

namespace Trace

/-- Adds the failures of a trace to those known before. -/
def addTo : Trace → Attempts → Attempts
  | silent, attempts => attempts
  | both first second, attempts => second.addTo (first.addTo attempts)
  | failed rule offset inner, attempts =>
      let before := attempts.countAt offset
      let after := inner.addTo attempts
      if after.countAt offset - before = 1 then after
      else after.record rule offset before

/-- The furthest offset at which a rule failed and the rules that failed there. -/
def furthest (trace : Trace) : Attempts :=
  trace.addTo .initial

end Trace

/-- The rules that failed, each once, in listing order. -/
def Attempts.expected (attempts : Attempts) : List Rule :=
  Rule.all.filter fun rule => attempts.rules.contains rule

end TreeSelector.Grammar

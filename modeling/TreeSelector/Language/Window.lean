import TreeSelector.Text.Radix

/-!
# Windows

A window bounds the offsets, counted from zero, of the candidates that a
connector may use.
-/

namespace TreeSelector

/-- The offsets from `min` to `max`, or without end. -/
structure Window where
  min : UInt32
  max : Option UInt32
  deriving DecidableEq, Repr

namespace Window

def unbounded : Window := ⟨0, none⟩

instance : Inhabited Window := ⟨unbounded⟩

/-- No candidate at this offset, or beyond it, lies in the window. -/
def isExhausted (window : Window) (offset : Nat) : Bool :=
  match window.max with
  | some max => max.toNat < offset
  | none => false

def admits (window : Window) (offset : Nat) : Bool :=
  window.min.toNat ≤ offset && !window.isExhausted offset

theorem admits_iff {window : Window} {offset : Nat} :
    window.admits offset = true ↔
      window.min.toNat ≤ offset ∧ ∀ max ∈ window.max, offset ≤ max.toNat := by
  cases bound : window.max with
  | none => simp [admits, isExhausted, bound]
  | some max => simp [admits, isExhausted, bound]

def render (window : Window) : String :=
  let min := Text.decimal window.min.toNat
  match window.max with
  | some max =>
      if max = window.min then "\x7b" ++ min ++ "\x7d"
      else "\x7b" ++ min ++ "," ++ Text.decimal max.toNat ++ "\x7d"
  | none => "\x7b" ++ min ++ ",\x7d"

end Window

end TreeSelector

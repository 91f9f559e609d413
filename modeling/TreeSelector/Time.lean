/-!
# Time

Moments and durations are counted in milliseconds.  Moments need not come in
order; the time from a later moment to an earlier one counts as none.
-/

namespace TreeSelector

/-- Milliseconds since some fixed moment. -/
abbrev Time : Type := Nat

namespace Time

/-- How long a mark lies back; nothing if it lies ahead. -/
def since (now mark : Time) : Nat := now - mark

/-- Whether a mark was set and lies back less than a duration. -/
def isWithin (now : Time) (duration : Nat) (mark : Option Time) : Bool :=
  mark.any fun mark => now.since mark < duration

theorem since_lt_iff {now mark duration : Nat} (positive : 0 < duration) :
    since now mark < duration ↔ now < mark + duration := by
  unfold since
  omega

theorem isWithin_eq_false_iff {now : Time} {duration : Nat} {mark : Option Time} :
    now.isWithin duration mark = false ↔ ∀ time, mark = some time → duration ≤ now.since time := by
  cases mark with
  | none => simp [isWithin]
  | some time => simp [isWithin]

end Time

end TreeSelector

import Mathlib.Tactic.SplitIfs
import TreeSelector.Rule.Basic

/-!
# What the status of a rule says

The status of a rule is the first of several conditions that holds.  What later
arguments need is the conditions themselves: a rule in force is neither disabled nor
expired, and of such a rule the status says how far it has come.
-/

namespace TreeSelector

namespace Rule

/-- A rule is neither disabled nor expired. -/
structure IsInForce (rule : Rule) (now : Time) : Prop where
  included : ¬ rule.definition.excluded = true
  sound : ¬ rule.definition.checkError.isSome = true
  unused : ¬ rule.isCapReached = true
  lasting : ¬ rule.isExpired now = true

/-- Nothing keeps a rule from acting on a match. -/
structure IsReady (rule : Rule) (now : Time) : Prop extends rule.IsInForce now where
  eligible : ¬ now < rule.readyAt
  idle : rule.progress.acting = none
  waited : ¬ rule.isWaiting now = true
  rested : ¬ rule.isResting now = true

variable {rule : Rule} {now : Time}

theorem IsInForce.status_eq (inForce : rule.IsInForce now) :
    rule.status now =
      if now < rule.readyAt then .pendingMatchDelay
      else if rule.progress.acting.isSome then .acting
      else if rule.isWaiting now then .pendingActionDelay
      else if rule.isResting now then .triggered
      else .ready := by
  rw [status, if_neg inForce.included, if_neg inForce.sound, if_neg inForce.unused,
    if_neg inForce.lasting]

theorem isInForce_of_status (enabled : ∀ reason, rule.status now ≠ .disabled reason)
    (lasts : rule.status now ≠ .expired) : rule.IsInForce now := by
  have included : ¬ rule.definition.excluded = true := fun excluded =>
    enabled .excluded (by rw [status, if_pos excluded])
  have sound : ¬ rule.definition.checkError.isSome = true := fun failed =>
    enabled .checkFailed (by rw [status, if_neg included, if_pos failed])
  have unused : ¬ rule.isCapReached = true := fun capped =>
    enabled .capReached (by rw [status, if_neg included, if_neg sound, if_pos capped])
  have lasting : ¬ rule.isExpired now = true := fun expired =>
    lasts (by rw [status, if_neg included, if_neg sound, if_neg unused, if_pos expired])
  exact ⟨included, sound, unused, lasting⟩

theorem status_eq_pendingMatchDelay_iff :
    rule.status now = .pendingMatchDelay ↔ rule.IsInForce now ∧ now < rule.readyAt := by
  constructor
  · intro pending
    have inForce : rule.IsInForce now := isInForce_of_status (by simp [pending]) (by simp [pending])
    rw [inForce.status_eq] at pending
    split_ifs at pending with early
    exact ⟨inForce, early⟩
  · rintro ⟨inForce, early⟩
    rw [inForce.status_eq, if_pos early]

theorem status_eq_ready_iff : rule.status now = .ready ↔ rule.IsReady now := by
  constructor
  · intro ready
    have inForce : rule.IsInForce now := isInForce_of_status (by simp [ready]) (by simp [ready])
    rw [inForce.status_eq] at ready
    split_ifs at ready with early acting waiting resting
    exact ⟨inForce, early, Option.not_isSome_iff_eq_none.mp acting, waiting, resting⟩
  · intro ready
    rw [ready.status_eq, if_neg ready.eligible, ready.idle, Option.isSome_none,
      if_neg Bool.false_ne_true, if_neg ready.waited, if_neg ready.rested]

theorem isWaiting_of_pendingActionDelay (pending : rule.status now = .pendingActionDelay) :
    rule.isWaiting now = true := by
  have inForce : rule.IsInForce now := isInForce_of_status (by simp [pending]) (by simp [pending])
  rw [inForce.status_eq] at pending
  split_ifs at pending with early acting waiting resting
  exact waiting

theorem acting_ne_none_of_acting (acting : rule.status now = .acting) :
    rule.progress.acting ≠ none := by
  have inForce : rule.IsInForce now := isInForce_of_status (by simp [acting]) (by simp [acting])
  rw [inForce.status_eq] at acting
  split_ifs at acting with early shown waiting resting
  exact Option.isSome_iff_ne_none.mp shown

theorem isExpired_of_le {time : Time} (before : time ≤ now) (expired : rule.isExpired time = true) :
    rule.isExpired now = true := by
  simp only [isExpired] at expired ⊢
  cases limit : rule.config.matchTime with
  | none =>
      rw [limit] at expired
      cases expired
  | some limit' =>
      rw [limit] at expired
      exact decide_eq_true (Nat.le_trans (of_decide_eq_true expired) before)

/-- A rule in force was so before, as long as its progress is the same. -/
theorem IsInForce.of_le {time : Time} (inForce : rule.IsInForce now) (before : time ≤ now) :
    rule.IsInForce time where
  included := inForce.included
  sound := inForce.sound
  unused := inForce.unused
  lasting := fun expired => inForce.lasting (isExpired_of_le before expired)

/-- A match that the rule no longer waits for has waited long enough. -/
theorem IsReady.actionDueFrom_le (ready : rule.IsReady now) {since : Time}
    (waiting : rule.progress.delayStarted = some since) : rule.actionDueFrom since ≤ now := by
  simpa [isWaiting, actionDeadline, waiting] using ready.waited

end Rule

end TreeSelector

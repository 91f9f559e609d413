import TreeSelector.Notification.Throttle

/-!
# Bursts of content changes

A throttle is told of notifications, of changes of the application in front and of triggers,
in any order and with any times.  What it keeps of them is when the last content change passed,
and when the application in front changed last and a rule triggered last.  So changes of windows
pass and leave no mark; on a settled screen the content changes that pass keep their distance;
and one is dropped only in favour of another one that passed before.
-/

namespace TreeSelector

namespace Throttle

/-- What a throttle is told. -/
inductive Signal where
  | notified (notification : Notification)
  | appChanged (time : Time)
  | triggered (time : Time)

namespace Signal

def appChange? : Signal → Option Time
  | appChanged time => some time
  | _ => none

def trigger? : Signal → Option Time
  | triggered time => some time
  | _ => none

end Signal

/-- When the application in front changed, in the order of the signals. -/
def appChanges (signals : List Signal) : List Time := signals.filterMap Signal.appChange?

/-- When a rule triggered, in the order of the signals. -/
def triggers (signals : List Signal) : List Time := signals.filterMap Signal.trigger?

theorem appChanges_cons (signal : Signal) (signals : List Signal) :
    appChanges (signal :: signals) = signal.appChange?.toList ++ appChanges signals := by
  cases signal <;> rfl

theorem triggers_cons (signal : Signal) (signals : List Signal) :
    triggers (signal :: signals) = signal.trigger?.toList ++ triggers signals := by
  cases signal <;> rfl

section Runs

variable (throttle : Throttle)

def hear : Signal → Throttle
  | .notified notification => (throttle.accept notification).2
  | .appChanged time => throttle.appChanged time
  | .triggered time => throttle.triggered time

def hearAll (signals : List Signal) : Throttle := signals.foldl hear throttle

/-- The answer to a signal; only notifications are answered. -/
def answer? : Signal → Option Bool
  | .notified notification => some (throttle.accept notification).1
  | _ => none

/-- The answers to the notifications among some signals, in the order of the signals. -/
def answers (throttle : Throttle) : List Signal → List Bool
  | [] => []
  | signal :: signals => (throttle.answer? signal).toList ++ (throttle.hear signal).answers signals

/-- The time of a content change that passes. -/
def passing? : Signal → Option Time
  | .notified notification =>
      if notification.kind = .content ∧ (throttle.accept notification).1 then
        some notification.time
      else none
  | _ => none

/-- The times of the content changes among some signals that pass, in the order of the
signals. -/
def passed (throttle : Throttle) : List Signal → List Time
  | [] => []
  | signal :: signals => (throttle.passing? signal).toList ++ (throttle.hear signal).passed signals

theorem answers_append (earlier later : List Signal) :
    throttle.answers (earlier ++ later) =
      throttle.answers earlier ++ (throttle.hearAll earlier).answers later := by
  induction earlier generalizing throttle with
  | nil => rfl
  | cons signal earlier hypothesis =>
      rw [List.cons_append, answers, answers, hypothesis, List.append_assoc]
      rfl

theorem accept_of_state {notification : Notification}
    (window : notification.kind = .state) : throttle.accept notification = (true, throttle) := by
  have kept : throttle.drops notification = false := by
    unfold drops
    rw [window]
    rfl
  unfold accept
  rw [kept, window]
  rfl

theorem accept_of_content {notification : Notification}
    (content : notification.kind = .content) :
    throttle.accept notification =
      if throttle.drops notification then (false, throttle)
      else (true, { throttle with lastContent := some notification.time }) := by
  unfold accept
  rw [content]

end Runs

section Marks

/-- The marks that content changes which passed, changes of the application in front and triggers
leave, each in the order in which they came. -/
def marked (contents changes triggers : List Time) : Throttle :=
  ⟨contents.getLast?, changes.getLast?, triggers.getLast?⟩

theorem hear_marked (contents changes triggers : List Time) (signal : Signal) :
    (marked contents changes triggers).hear signal =
      marked (contents ++ ((marked contents changes triggers).passing? signal).toList)
        (changes ++ signal.appChange?.toList) (triggers ++ signal.trigger?.toList) := by
  cases signal with
  | appChanged time => simp [hear, appChanged, marked, passing?, Signal.appChange?, Signal.trigger?]
  | triggered time => simp [hear, triggered, marked, passing?, Signal.appChange?, Signal.trigger?]
  | notified notification =>
      simp only [hear, passing?, Signal.appChange?, Signal.trigger?, Option.toList_none,
        List.append_nil]
      cases kind : notification.kind with
      | state => simp [accept_of_state _ kind]
      | content =>
          rw [accept_of_content _ kind]
          split
          · simp
          · simp [marked]

theorem hearAll_marked (contents changes triggered : List Time) (signals : List Signal) :
    (marked contents changes triggered).hearAll signals =
      marked (contents ++ (marked contents changes triggered).passed signals)
        (changes ++ appChanges signals) (triggered ++ triggers signals) := by
  induction signals generalizing contents changes triggered with
  | nil => simp [hearAll, passed, appChanges, triggers]
  | cons signal signals hypothesis =>
      rw [passed, appChanges_cons, triggers_cons, ← List.append_assoc, ← List.append_assoc,
        ← List.append_assoc, hear_marked]
      exact (congrArg (hearAll · signals) (hear_marked ..)).trans (hypothesis ..)

/-- After a run a throttle has the marks of what it was told. -/
theorem hearAll_eq_marked (signals : List Signal) :
    hearAll {} signals = marked (passed {} signals) (appChanges signals) (triggers signals) :=
  hearAll_marked [] [] [] signals

end Marks

section Bursts

/-- Whether the screen is settled at some time, as far as some signals tell: an application is
known to be in front for long enough, and no rule triggered lately. -/
structure IsSettledAfter (signals : List Signal) (now : Time) : Prop where
  appChange : ∃ changed, (appChanges signals).getLast? = some changed ∧ 5000 ≤ now.since changed
  trigger : ∀ triggered, (triggers signals).getLast? = some triggered →
    3000 ≤ now.since triggered

theorem isSettled_hearAll_iff {signals : List Signal} {now : Time} :
    (hearAll {} signals).isSettled now = true ↔ IsSettledAfter signals now := by
  rw [hearAll_eq_marked]
  simp only [isSettled, marked, Bool.and_eq_true, Bool.not_eq_true', Time.isWithin_eq_false_iff,
    Option.isSome_iff_exists]
  constructor
  · rintro ⟨⟨⟨changed, last⟩, calm⟩, quiet⟩
    exact ⟨⟨changed, last, calm changed last⟩, quiet⟩
  · rintro ⟨⟨changed, last, calm⟩, quiet⟩
    refine ⟨⟨⟨changed, last⟩, fun time same => ?_⟩, quiet⟩
    obtain rfl := Option.some.inj (last.symm.trans same)
    exact calm

/-- A notification is dropped exactly if it is a content change on a settled screen and comes
too soon behind the last one that passed. -/
theorem drops_hearAll_iff {signals : List Signal} {notification : Notification} :
    (hearAll {} signals).drops notification = true ↔
      notification.kind = .content ∧ IsSettledAfter signals notification.time ∧
        ∃ last, (passed {} signals).getLast? = some last ∧ notification.time < last + 100 := by
  have soon {last : Time} :
      notification.time.since last < contentInterval ↔ notification.time < last + 100 :=
    Time.since_lt_iff (by decide)
  have mark : (hearAll {} signals).lastContent = (passed {} signals).getLast? :=
    congrArg lastContent (hearAll_eq_marked signals)
  simp only [drops, Bool.and_eq_true, decide_eq_true_eq, isSettled_hearAll_iff, mark,
    Time.isWithin, Option.any_eq_true, soon, and_assoc]

theorem fst_accept (throttle : Throttle) (notification : Notification) :
    (throttle.accept notification).1 = !throttle.drops notification := by
  cases kind : notification.kind with
  | state => rw [accept_of_state _ kind, drops, kind]; rfl
  | content =>
      rw [accept_of_content _ kind]
      split <;> simp_all

/-- Every notification of a run is answered.  A change of a window passes, and the answers to
all that follows are as if it had not come.  A content change that passes on a settled screen
keeps its distance from the last one that passed; one that is dropped comes on a settled screen
and too soon behind one that passed. -/
theorem thins_bursts_out (earlier later : List Signal) (notification : Notification) :
    let passes := ((hearAll {} earlier).accept notification).1
    ∃ rest, answers {} (earlier ++ .notified notification :: later) =
        answers {} earlier ++ passes :: rest ∧
      (notification.kind = .state →
        passes = true ∧ answers {} (earlier ++ later) = answers {} earlier ++ rest) ∧
      (notification.kind = .content →
        (passes = true → IsSettledAfter earlier notification.time →
          ∀ last, (passed {} earlier).getLast? = some last → last + 100 ≤ notification.time) ∧
        (passes = false → IsSettledAfter earlier notification.time ∧
          ∃ last ∈ passed {} earlier, notification.time < last + 100)) := by
  intro passes
  refine ⟨((hearAll {} earlier).accept notification).2.answers later, ?_, ?_, ?_⟩
  · rw [answers_append]
    rfl
  · intro window
    have unmoved := accept_of_state (hearAll {} earlier) window
    refine ⟨congrArg Prod.fst unmoved, ?_⟩
    rw [answers_append, unmoved]
  · intro content
    have kept : passes = !(hearAll {} earlier).drops notification := fst_accept ..
    constructor
    · intro passing settled last mark
      rw [passing] at kept
      refine Nat.le_of_not_lt fun close => ?_
      rw [drops_hearAll_iff.mpr ⟨content, settled, last, mark, close⟩] at kept
      cases kept
    · intro dropped
      rw [dropped] at kept
      obtain ⟨_, settled, last, mark, close⟩ := drops_hearAll_iff.mp (by simpa using kept.symm)
      exact ⟨settled, last, List.mem_of_getLast? mark, close⟩

example :
    let change (time : Time) : Signal := .notified { kind := .content, appId := "app", time }
    answers {} [.appChanged 0, change 6000, change 6050, change 6120, .triggered 6120, change 6130] =
      [true, false, true, true] := by
  decide

end Bursts

end Throttle

end TreeSelector

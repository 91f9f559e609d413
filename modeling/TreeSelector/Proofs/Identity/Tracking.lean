import TreeSelector.Identity.Tracker

/-!
# Tracking what is in front

A tracker is told of activities that were entered, of polls and of observed applications, in any
order and with any times.  It answers whether what is in front changed.  While one application
stays in front, its activity is not forgotten once it is known.  The number of an identity grows
when its place is entered again, at least a second after the last change, and at no other time.
-/

namespace TreeSelector

namespace IdentityTracker

/-- What a tracker is told. -/
inductive Report where
  | entered (appId : String) (activityId : Option String) (time : Time)
  | polled (appId : String) (activityId : Option String) (time : Time)
  | observed (appId : String) (time : Time)

def Report.time : Report → Time
  | entered _ _ time | polled _ _ time | observed _ time => time

section Runs

variable (tracker : IdentityTracker)

def hear : Report → Bool × IdentityTracker
  | .entered appId activityId time => tracker.enter appId activityId time
  | .polled appId activityId time => tracker.confirm appId activityId time
  | .observed appId time => tracker.observe appId time

def hearAll (reports : List Report) : IdentityTracker :=
  reports.foldl (fun tracker report => (tracker.hear report).2) tracker

/-- The number of the current identity. -/
def number : Nat := (tracker.current.map (·.number)).getD 0

/-- The application and the activity in front. -/
def place? : Option (String × Option String) :=
  tracker.current.map fun identity => (identity.appId, identity.activityId)

/-- The reports that change what is in front, in their order. -/
def changes (tracker : IdentityTracker) : List Report → List Report
  | [] => []
  | report :: reports =>
      let next := (tracker.hear report).2
      (if next.current = tracker.current then [] else [report]) ++ next.changes reports

/-- What is in front changes though its place stays the same. -/
def Returns (next : IdentityTracker) : Prop :=
  next.current ≠ tracker.current ∧ next.place? = tracker.place?

instance (next : IdentityTracker) : Decidable (tracker.Returns next) :=
  inferInstanceAs (Decidable (_ ∧ _))

/-- How often the place in front is entered again. -/
def returns (tracker : IdentityTracker) : List Report → Nat
  | [] => 0
  | report :: reports =>
      let next := (tracker.hear report).2
      (if tracker.Returns next then 1 else 0) + next.returns reports

end Runs

section Steps

/-- How a report can bring an identity to the front. -/
inductive Brings (tracker : IdentityTracker) : Report → Identity → Prop where
  /-- Something else comes to the front; an activity that is known of the same application is
  not lost. -/
  | elsewhere {report : Report} {identity : Identity} :
      tracker.place? ≠ some (identity.appId, identity.activityId) → identity.number = 0 →
      (∀ current, tracker.current = some current → current.appId = identity.appId →
        current.activityId ≠ none → identity.activityId ≠ none) →
      Brings tracker report identity
  /-- What is in front is entered again, and that is not too soon. -/
  | again {current : Identity} {activityId : Option String} {time : Time} :
      tracker.current = some current → activityId = none ∨ activityId = current.activityId →
      time.isWithin duplicateWindow tracker.updatedAt = false →
      Brings tracker (.entered current.appId activityId time)
        { current with number := current.number + 1 }

variable {tracker : IdentityTracker}

theorem knownActivity_ne_none {appId : String} {activityId : Option String} {current : Identity}
    (front : tracker.current = some current) (same : current.appId = appId)
    (known : current.activityId ≠ none) : tracker.knownActivity appId activityId ≠ none := by
  unfold knownActivity
  cases activityId with
  | some activity => exact Option.some_ne_none activity
  | none => simpa [front, same] using known

theorem knownActivity_eq_iff {activityId : Option String} {current : Identity}
    (front : tracker.current = some current) :
    tracker.knownActivity current.appId activityId = current.activityId ↔
      activityId = none ∨ activityId = current.activityId := by
  unfold knownActivity
  cases activityId <;> simp [front]

theorem isAt_iff {identity : Identity} {appId : String} {activityId : Option String} :
    identity.isAt appId activityId = true ↔
      identity.appId = appId ∧ identity.activityId = activityId := by
  simp [Identity.isAt]

theorem place?_eq_some_iff {appId : String} {activityId : Option String} :
    tracker.place? = some (appId, activityId) ↔ tracker.isAt appId activityId = true := by
  unfold place? isAt
  cases tracker.current <;> simp [isAt_iff]

/-- Where an application is told of that is not at the place in front, it comes to the front
with the activity known of it. -/
theorem brings_elsewhere {report : Report} {appId : String} {activityId : Option String}
    (other : tracker.isAt appId (tracker.knownActivity appId activityId) = false) :
    tracker.Brings report ⟨appId, tracker.knownActivity appId activityId, 0⟩ := by
  refine .elsewhere (fun same => ?_) rfl fun current front => knownActivity_ne_none front
  rw [place?_eq_some_iff, other] at same
  cases same

theorem enter_stays_or_brings (appId : String) (activityId : Option String) (time : Time) :
    tracker.enter appId activityId time = (false, tracker) ∨
      ∃ identity, tracker.Brings (.entered appId activityId time) identity ∧
        tracker.enter appId activityId time = (true, set identity time) := by
  have elsewhere (other : tracker.isAt appId (tracker.knownActivity appId activityId) = false) :
      tracker.Brings (.entered appId activityId time)
        ⟨appId, tracker.knownActivity appId activityId, 0⟩ :=
    brings_elsewhere other
  unfold isAt at elsewhere
  unfold enter
  cases front : tracker.current with
  | none => exact .inr ⟨_, elsewhere (by rw [front]; rfl), rfl⟩
  | some current =>
      dsimp only
      split
      · rename_i here
        obtain ⟨rfl, same⟩ := isAt_iff.mp here
        split
        · exact .inl rfl
        · rename_i late
          exact .inr ⟨_, .again front ((knownActivity_eq_iff front).mp same.symm)
            (Bool.eq_false_iff.mpr late), rfl⟩
      · rename_i other
        exact .inr ⟨_, elsewhere (by simpa [front] using other), rfl⟩

theorem confirm_stays_or_brings (appId : String) (activityId : Option String) (time : Time) :
    tracker.confirm appId activityId time = (false, tracker) ∨
      ∃ identity, tracker.Brings (.polled appId activityId time) identity ∧
        tracker.confirm appId activityId time = (true, set identity time) := by
  unfold confirm
  dsimp only
  split
  · exact .inl rfl
  · rename_i other
    exact .inr ⟨_, brings_elsewhere (Bool.eq_false_iff.mpr other), rfl⟩

theorem observe_stays_or_brings (appId : String) (time : Time) :
    tracker.observe appId time = (false, tracker) ∨
      ∃ identity, tracker.Brings (.observed appId time) identity ∧
        tracker.observe appId time = (true, set identity time) := by
  unfold observe
  split
  · exact .inl rfl
  · rename_i other
    have otherApp (current : Identity) (front : tracker.current = some current) :
        current.appId ≠ appId := by
      simpa [front] using other
    refine .inr ⟨_, .elsewhere (fun same => ?_) rfl fun current front same => ?_, rfl⟩
    · obtain ⟨current, front, here⟩ := Option.map_eq_some_iff.mp same
      exact otherApp current front (congrArg Prod.fst here)
    · exact absurd same (otherApp current front)

/-- A report leaves the tracker as it is, or else it brings an identity to the front. -/
theorem hear_stays_or_brings (tracker : IdentityTracker) (report : Report) :
    tracker.hear report = (false, tracker) ∨
      ∃ identity, tracker.Brings report identity ∧
        tracker.hear report = (true, set identity report.time) := by
  cases report with
  | entered appId activityId time => exact enter_stays_or_brings appId activityId time
  | polled appId activityId time => exact confirm_stays_or_brings appId activityId time
  | observed appId time => exact observe_stays_or_brings appId time

theorem Brings.current_ne {report : Report} {identity : Identity}
    (brings : tracker.Brings report identity) : tracker.current ≠ some identity := by
  intro front
  cases brings with
  | elsewhere other =>
      exact other (by rw [place?, front]; rfl)
  | again front' =>
      have same := congrArg Identity.number (Option.some.inj (front'.symm.trans front))
      simp at same

/-- The answer tells whether what is in front changed. -/
theorem answer_iff (tracker : IdentityTracker) (report : Report) :
    (tracker.hear report).1 = true ↔ (tracker.hear report).2.current ≠ tracker.current := by
  rcases tracker.hear_stays_or_brings report with stays | ⟨identity, brings, goes⟩
  · simp [stays]
  · rw [goes]
    exact iff_of_true rfl brings.current_ne.symm

theorem number_set (identity : Identity) (time : Time) :
    (set identity time).number = identity.number := rfl

theorem number_of_front {current : Identity} (front : tracker.current = some current) :
    tracker.number = current.number := by
  rw [number, front]
  rfl

/-- The number grows only if what is in front is entered again, and then by one. -/
theorem entered_of_number_lt {report : Report}
    (grows : tracker.number < (tracker.hear report).2.number) :
    (tracker.hear report).2.number = tracker.number + 1 ∧
      ∃ current activityId time, tracker.current = some current ∧
        report = .entered current.appId activityId time ∧
        (activityId = none ∨ activityId = current.activityId) ∧
        time.isWithin duplicateWindow tracker.updatedAt = false := by
  rcases tracker.hear_stays_or_brings report with stays | ⟨identity, brings, goes⟩
  · rw [stays] at grows
    exact absurd grows (Nat.lt_irrefl _)
  · rw [goes] at grows ⊢
    cases brings with
    | elsewhere _ new => exact absurd (new ▸ number_set identity _ ▸ grows) (Nat.not_lt_zero _)
    | @again current activityId time front same late =>
        refine ⟨?_, current, activityId, time, front, rfl, same, late⟩
        rw [number_set, number_of_front front]

/-- While the application stays in front, its activity is not forgotten. -/
theorem knows_hear {report : Report} {current next : Identity}
    (front : tracker.current = some current) (known : current.activityId ≠ none)
    (after : (tracker.hear report).2.current = some next) (same : next.appId = current.appId) :
    next.activityId ≠ none := by
  rcases tracker.hear_stays_or_brings report with stays | ⟨identity, brings, goes⟩
  · rw [stays, front] at after
    exact Option.some.inj after ▸ known
  · rw [goes] at after
    obtain rfl := Option.some.inj after
    cases brings with
    | elsewhere _ _ keeps => exact keeps current front same.symm known
    | again front' => exact Option.some.inj (front.symm.trans front') ▸ known

/-- The number grows by a return at most. -/
theorem number_hear_le (tracker : IdentityTracker) (report : Report) :
    (tracker.hear report).2.number ≤
      tracker.number + if tracker.Returns (tracker.hear report).2 then 1 else 0 := by
  rcases tracker.hear_stays_or_brings report with stays | ⟨identity, brings, goes⟩
  · rw [stays]
    exact Nat.le_add_right _ _
  · rw [goes]
    have changed := brings.current_ne
    cases brings with
    | elsewhere _ new =>
        rw [number_set, new]
        exact Nat.zero_le _
    | again front =>
        rw [if_pos ⟨changed.symm, by rw [place?, place?, front]; rfl⟩, number_set]
        exact Nat.succ_le_succ (Nat.le_of_eq (number_of_front front).symm)

end Steps

section Histories

variable (tracker : IdentityTracker)

/-- A tracker knows when what is in front changed last. -/
theorem updatedAt_hearAll (reports : List Report) :
    (tracker.hearAll reports).updatedAt =
      ((tracker.changes reports).getLast?.map Report.time).or tracker.updatedAt := by
  induction reports generalizing tracker with
  | nil => rfl
  | cons report reports hypothesis =>
      refine (hypothesis (tracker.hear report).2).trans ?_
      rw [changes]
      rcases tracker.hear_stays_or_brings report with stays | ⟨identity, brings, goes⟩
      · simp [stays]
      · have changed : (set identity report.time).current ≠ tracker.current := brings.current_ne.symm
        rw [goes, if_neg changed, List.getLast?_append]
        cases (changes _ reports).getLast? <;> rfl

/-- As soon as something is in front, it came there at some time. -/
theorem isSome_updatedAt_hearAll {reports : List Report}
    (dated : tracker.updatedAt.isSome = tracker.current.isSome) :
    (tracker.hearAll reports).updatedAt.isSome = (tracker.hearAll reports).current.isSome := by
  induction reports generalizing tracker with
  | nil => exact dated
  | cons report reports hypothesis =>
      refine hypothesis (tracker.hear report).2 ?_
      rcases tracker.hear_stays_or_brings report with stays | ⟨identity, brings, goes⟩
      · rwa [stays]
      · rw [goes]
        rfl

/-- The number counts returns to the place in front, and not all of them. -/
theorem number_hearAll_le (reports : List Report) :
    (tracker.hearAll reports).number ≤ tracker.number + tracker.returns reports := by
  induction reports generalizing tracker with
  | nil => exact Nat.le_refl _
  | cons report reports hypothesis =>
      have step := tracker.number_hear_le report
      have rest := hypothesis (tracker.hear report).2
      rw [returns]
      change ((tracker.hear report).2.hearAll reports).number ≤ _
      omega

/-- While one application stays in front, an activity of it that is known is not forgotten. -/
theorem knows_hearAll {reports : List Report} {current : Identity}
    (front : tracker.current = some current) (known : current.activityId ≠ none)
    (stays : ∀ part, part <+: reports →
      (tracker.hearAll part).current.map (·.appId) = some current.appId) :
    ∃ last, (tracker.hearAll reports).current = some last ∧ last.activityId ≠ none := by
  induction reports generalizing tracker current with
  | nil => exact ⟨current, front, known⟩
  | cons report reports hypothesis =>
      obtain ⟨next, after, same⟩ := Option.map_eq_some_iff.mp
        (stays [report] (List.prefix_append [report] reports))
      refine hypothesis (tracker.hear report).2 after (knows_hear front known after same)
        fun part before => ?_
      rw [same]
      exact stays (report :: part) ((List.prefix_cons_inj report).mpr before)

/-- An answer tells whether what is in front changed.  While one application stays in front, its
activity is not forgotten once it is known.  Neither polls nor observed applications make the
number grow; it grows, by one, only if the current place is entered again at least a second after
the last change.  So it is bounded by how often that happened. -/
theorem tracks_identities (earlier later : List Report) (report : Report) :
    let tracker := hearAll {} earlier
    let outcome := tracker.hear report
    (outcome.1 = true ↔ outcome.2.current ≠ tracker.current) ∧
      (∀ current, tracker.current = some current → current.activityId ≠ none →
        (∀ part, part <+: later →
          (tracker.hearAll part).current.map (·.appId) = some current.appId) →
        ∃ last, (tracker.hearAll later).current = some last ∧ last.activityId ≠ none) ∧
      ((∀ appId activityId time, report ≠ .entered appId activityId time) →
        outcome.2.number ≤ tracker.number) ∧
      (tracker.number < outcome.2.number → outcome.2.number = tracker.number + 1 ∧
        ∃ current activityId time last, tracker.current = some current ∧
          report = .entered current.appId activityId time ∧
          (activityId = none ∨ activityId = current.activityId) ∧
          (changes {} earlier).getLast? = some last ∧ last.time + 1000 ≤ time) ∧
      outcome.2.number ≤ returns {} (earlier ++ [report]) := by
  intro tracker outcome
  refine ⟨tracker.answer_iff report, fun current => tracker.knows_hearAll, ?_, ?_, ?_⟩
  · intro other
    refine Nat.le_of_not_lt fun grows => ?_
    obtain ⟨_, current, activityId, time, _, rfl, _⟩ := entered_of_number_lt grows
    exact other _ _ _ rfl
  · intro grows
    obtain ⟨once, current, activityId, time, front, entered, same, late⟩ :=
      entered_of_number_lt grows
    have dated : tracker.updatedAt.isSome = true := by
      rw [isSome_updatedAt_hearAll {} rfl, front]
      rfl
    have marked : tracker.updatedAt = (changes {} earlier).getLast?.map Report.time :=
      (updatedAt_hearAll {} earlier).trans (Option.or_none)
    rw [marked] at dated late
    obtain ⟨last, changed⟩ := Option.isSome_iff_exists.mp (Option.isSome_map.symm.trans dated)
    have waited : 1000 ≤ time.since last.time :=
      Time.isWithin_eq_false_iff.mp late last.time (congrArg _ changed)
    exact ⟨once, current, activityId, time, last, front, entered, same, changed,
      Nat.le_of_not_lt fun soon =>
        Nat.not_lt_of_le waited ((Time.since_lt_iff (by decide)).mpr soon)⟩
  · have bound := number_hearAll_le {} (earlier ++ [report])
    rw [hearAll, List.foldl_append] at bound
    exact Nat.le_trans bound (Nat.le_of_eq (Nat.zero_add _))

end Histories

end IdentityTracker

end TreeSelector

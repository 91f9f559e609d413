import TreeSelector.Proofs.Reading.Transfer

/-!
# Readings that save questions

A reading may give the answers of a reference and put fewer questions to the host, since
it knows some of them already.  This is kept by everything that readings are composed
of, so it has to be shown for the single questions only.
-/

namespace TreeSelector

namespace Reading

variable {α β : Type} {kept : Session → Prop}

/-- As long as `kept` holds, a reading gives the answer that the reference gives, asks the
host no more often, and `kept` goes on to hold. -/
def Saves (kept : Session → Prop) (reading reference : Reading α) : Prop :=
  ∀ session session', kept session →
    reading.answer session = reference.answer session' ∧ kept (reading.after session) ∧
      (reading.after session).calls + session'.calls ≤
        session.calls + (reference.after session').calls

/-- A reading takes back none of the questions that were asked. -/
def Grows (reading : Reading α) : Prop :=
  ∀ session : Session, session.calls ≤ (reading.after session).calls

namespace Saves

theorem follows {reading reference : Reading α} (saves : Saves kept reading reference) :
    Follows kept reading reference :=
  fun session session' holds =>
    ⟨(saves session session' holds).1, (saves session session' holds).2.1⟩

theorem pure (value : α) : Saves kept (Pure.pure value) (Pure.pure value) :=
  fun _ _ holds => ⟨rfl, holds, Nat.le_refl _⟩

theorem bind {reading reference : Reading α} {next next' : α → Reading β}
    (first : Saves kept reading reference)
    (second : ∀ value, Saves kept (next value) (next' value)) :
    Saves kept (reading >>= next) (reference >>= next') := by
  intro session session' holds
  obtain ⟨same, holdsThen, fewer⟩ := first session session' holds
  obtain ⟨sameThen, holdsLast, fewerThen⟩ := second (reading.answer session)
    (reading.after session) (reference.after session') holdsThen
  rw [answer_bind, answer_bind, after_bind, after_bind, ← same]
  refine ⟨sameThen, holdsLast, ?_⟩
  omega

theorem map {reading reference : Reading α} (change : α → β)
    (first : Saves kept reading reference) :
    Saves kept (do return change (← reading)) (do return change (← reference)) :=
  first.bind fun value => pure (change value)

theorem ite {condition : Prop} [Decidable condition] {yes no yes' no' : Reading α}
    (first : Saves kept yes yes') (second : Saves kept no no') :
    Saves kept (if condition then yes else no) (if condition then yes' else no') := by
  split
  · exact first
  · exact second

/-- What is known need not be asked for. -/
theorem of_gives {reference : Reading α} {value : α} (gives : Gives reference value)
    (grows : Grows reference) : Saves kept (Pure.pure value) reference := by
  intro session session' holds
  exact ⟨(gives session').symm, holds, Nat.add_le_add_left (grows session') _⟩

/-- Only the tests at the positions looked at matter. -/
theorem findPosition {test test' : Nat → Reading Bool} {position count : Nat}
    (tests : ∀ place, place < position + count → Saves kept (test place) (test' place)) :
    Saves kept (Reading.findPosition test position count)
      (Reading.findPosition test' position count) := by
  induction count generalizing position with
  | zero => exact .pure none
  | succ count hypothesis =>
      refine (tests position (by omega)).bind fun found => ?_
      cases found with
      | false => exact hypothesis fun place inside => tests place (by omega)
      | true => exact .pure (some position)

end Saves

namespace Grows

theorem pure (value : α) : Grows (Pure.pure value) := fun _ => Nat.le_refl _

theorem bind {reading : Reading α} {next : α → Reading β} (first : Grows reading)
    (second : ∀ value, Grows (next value)) : Grows (reading >>= next) := by
  intro session
  rw [after_bind]
  exact Nat.le_trans (first session) (second _ _)

theorem map {reading : Reading α} (change : α → β) (first : Grows reading) :
    Grows (do return change (← reading)) :=
  first.bind fun value => pure (change value)

theorem ask (answer : Except HostError α) : Grows (Reading.ask answer) :=
  fun session => Nat.le_succ session.calls

theorem findPosition {test : Nat → Reading Bool} (tests : ∀ position, Grows (test position))
    (position count : Nat) : Grows (Reading.findPosition test position count) := by
  induction count generalizing position with
  | zero => exact .pure none
  | succ count hypothesis =>
      refine (tests position).bind fun found => ?_
      cases found with
      | false => exact hypothesis (position + 1)
      | true => exact .pure (some position)

end Grows

/-- The least position at which a test succeeds is found if it is among those looked at. -/
theorem Gives.findPosition {test : Nat → Reading Bool} {holds : Nat → Bool}
    (tests : ∀ position, Gives (test position) (holds position)) {target : Nat}
    (here : holds target = true) {position : Nat}
    (least : ∀ earlier, position ≤ earlier → earlier < target → holds earlier = false)
    {count : Nat} (inside : target < position + count) (behind : position ≤ target) :
    Gives (Reading.findPosition test position count) (some target) := by
  induction count generalizing position with
  | zero => omega
  | succ count hypothesis =>
      refine (tests position).bind ?_
      rcases Nat.eq_or_lt_of_le behind with rfl | before
      · rw [here]
        exact .pure _
      · rw [least position (Nat.le_refl _) before]
        exact hypothesis (fun earlier after => least earlier (by omega)) (by omega) before

end Reading

/-- A view whose primitive readings save questions against those of a reference. -/
structure View.Saves (kept : Session → Prop) (view reference : View) : Prop where
  root : Reading.Saves kept view.root reference.root
  parent : ∀ node, Reading.Saves kept (view.parent node) (reference.parent node)
  child : ∀ node index, Reading.Saves kept (view.child node index) (reference.child node index)
  childCount : ∀ node, Reading.Saves kept (view.childCount node) (reference.childCount node)
  index : ∀ node, Reading.Saves kept (view.index node) (reference.index node)
  depth : ∀ node, Reading.Saves kept (view.depth node) (reference.depth node)
  attributeValue : ∀ node attr,
    Reading.Saves kept (view.attributeValue node attr) (reference.attributeValue node attr)
  lookUp : ∀ node keys,
    Reading.Saves kept (view.lookUp node keys) (reference.lookUp node keys)
  heightBound : view.heightBound = reference.heightBound

end TreeSelector

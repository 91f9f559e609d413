import TreeSelector.Matching

/-!
# Readings that follow one another

Matching is written against a view.  If each primitive reading of one view gives
the answer of the same reading of a reference view, and keeps what that answer
depends on, then so does everything that is built from the primitives.  A view
that follows itself without any condition is steady: what it answers does not
depend on what was read before.
-/

namespace TreeSelector

namespace Reading

variable {α β : Type}

/-- What a reading answers. -/
def answer (reading : Reading α) (session : Session) : α :=
  (StateT.run reading session).1

/-- What has been read once a reading has answered. -/
def after (reading : Reading α) (session : Session) : Session :=
  (StateT.run reading session).2

@[simp]
theorem answer_pure (value : α) (session : Session) :
    answer (pure value) session = value := rfl

@[simp]
theorem after_pure (value : α) (session : Session) :
    after (pure value) session = session := rfl

theorem answer_bind (reading : Reading α) (next : α → Reading β) (session : Session) :
    answer (reading >>= next) session =
      answer (next (reading.answer session)) (reading.after session) := rfl

theorem after_bind (reading : Reading α) (next : α → Reading β) (session : Session) :
    after (reading >>= next) session =
      after (next (reading.answer session)) (reading.after session) := rfl

/-- As long as `kept` holds, a reading gives the answer that the reference gives
wherever that is asked, and `kept` goes on to hold. -/
def Follows (kept : Session → Prop) (reading reference : Reading α) : Prop :=
  ∀ session session', kept session →
    reading.answer session = reference.answer session' ∧ kept (reading.after session)

namespace Follows

variable {kept : Session → Prop}

theorem pure (value : α) : Follows kept (Pure.pure value) (Pure.pure value) :=
  fun _ _ holds => ⟨rfl, holds⟩

theorem bind {reading reference : Reading α} {next next' : α → Reading β}
    (first : Follows kept reading reference)
    (second : ∀ value, Follows kept (next value) (next' value)) :
    Follows kept (reading >>= next) (reference >>= next') := by
  intro session session' holds
  obtain ⟨same, holdsThen⟩ := first session session' holds
  rw [answer_bind, answer_bind, after_bind, ← same]
  exact second _ _ _ holdsThen

theorem map {reading reference : Reading α} (change : α → β)
    (first : Follows kept reading reference) :
    Follows kept (do return change (← reading)) (do return change (← reference)) :=
  first.bind fun value => pure (change value)

theorem ite {condition : Prop} [Decidable condition]
    {yes no yes' no' : Reading α} (first : Follows kept yes yes')
    (second : Follows kept no no') :
    Follows kept (if condition then yes else no) (if condition then yes' else no') := by
  split
  · exact first
  · exact second

end Follows

/-- The answer does not depend on what was read before. -/
def IsSteady (reading : Reading α) : Prop :=
  Follows (fun _ => True) reading reading

/-- What a reading answers when nothing was read before. -/
def result (reading : Reading α) : α := reading.answer (.fresh 0)

/-- Whatever was read before, the answer is `value`. -/
def Gives (reading : Reading α) (value : α) : Prop :=
  ∀ session, reading.answer session = value

theorem Follows.gives {reading reference : Reading α}
    (follows : Follows (fun _ => True) reading reference) :
    Gives reading reference.result :=
  fun session => (follows session _ trivial).1

theorem IsSteady.gives {reading : Reading α} (steady : reading.IsSteady) :
    Gives reading reading.result :=
  Follows.gives steady

namespace Gives

theorem result_eq {reading : Reading α} {value : α} (gives : Gives reading value) :
    reading.result = value :=
  gives _

theorem pure (value : α) : Gives (Pure.pure value) value := fun _ => rfl

theorem bind {reading : Reading α} {next : α → Reading β} {value : α} {final : β}
    (first : Gives reading value) (second : Gives (next value) final) :
    Gives (reading >>= next) final := by
  intro session
  rw [answer_bind, first session]
  exact second _

theorem map {reading : Reading α} {value : α} (change : α → β)
    (first : Gives reading value) :
    Gives (do return change (← reading)) (change value) :=
  first.bind (pure _)

/-- Two readings in a row whose joint answer is known. -/
theorem bind_of_bind {γ : Type} {reading : Reading α} {next : α → Reading β}
    {last : β → Reading γ} {value : β} {final : γ} (first : Gives (reading >>= next) value)
    (second : Gives (last value) final) :
    Gives (reading >>= fun found => next found >>= last) final := by
  have regrouped : Gives (reading >>= next >>= last) final := first.bind second
  exact regrouped

end Gives

/-- Whatever was read before, the answer satisfies `holds`. -/
def Ensures (holds : α → Prop) (reading : Reading α) : Prop :=
  ∀ session, holds (reading.answer session)

namespace Ensures

variable {holds : α → Prop} {holds' : β → Prop}

theorem pure {value : α} (satisfied : holds value) : Ensures holds (Pure.pure value) :=
  fun _ => satisfied

theorem any (reading : Reading α) : Ensures (fun _ => True) reading := fun _ => trivial

theorem bind {reading : Reading α} {next : α → Reading β} (first : Ensures holds reading)
    (second : ∀ value, holds value → Ensures holds' (next value)) :
    Ensures holds' (reading >>= next) := by
  intro session
  rw [answer_bind]
  exact second _ (first session) _

theorem map {reading : Reading α} {change : α → β} (always : ∀ value, holds' (change value)) :
    Ensures holds' (do return change (← reading)) :=
  (any reading).bind fun value _ => pure (always value)

theorem ite {condition : Prop} [Decidable condition] {yes no : Reading α}
    (first : condition → Ensures holds yes) (second : ¬ condition → Ensures holds no) :
    Ensures holds (if condition then yes else no) := by
  split
  · exact first ‹_›
  · exact second ‹_›

end Ensures

theorem Gives.ensures {reading : Reading α} {value : α} {holds : α → Prop}
    (gives : Gives reading value) (satisfied : holds value) : Ensures holds reading := by
  intro session
  rw [gives session]
  exact satisfied

end Reading

/-- A view whose primitive readings follow those of a reference. -/
structure View.Follows (kept : Session → Prop) (view reference : View) : Prop where
  root : Reading.Follows kept view.root reference.root
  parent : ∀ node, Reading.Follows kept (view.parent node) (reference.parent node)
  child : ∀ node index,
    Reading.Follows kept (view.child node index) (reference.child node index)
  childCount : ∀ node,
    Reading.Follows kept (view.childCount node) (reference.childCount node)
  index : ∀ node, Reading.Follows kept (view.index node) (reference.index node)
  depth : ∀ node, Reading.Follows kept (view.depth node) (reference.depth node)
  attributeValue : ∀ node attr,
    Reading.Follows kept (view.attributeValue node attr) (reference.attributeValue node attr)
  lookUp : ∀ node keys,
    Reading.Follows kept (view.lookUp node keys) (reference.lookUp node keys)
  heightBound : view.heightBound = reference.heightBound

/-- A view whose primitive readings are steady. -/
def View.IsSteady (view : View) : Prop := view.Follows (fun _ => True) view

end TreeSelector

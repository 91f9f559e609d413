import TreeSelector.Proofs.Cache.Knowledge
import TreeSelector.Proofs.Reading.Direct
import TreeSelector.Reading.Remembering

/-!
# Readings that keep pace

A reading keeps pace with a reference if it gives the same answer and asks the host just as
often.  When it looks into the cache first, this depends on what is found there, so what it
relies on and what it leaves behind are said of the cache.  A reading that leaves the cache
alone keeps pace whatever is stored.
-/

namespace TreeSelector

namespace Reading

variable {α β : Type}

/-- From a cache of which `known` holds, a reading gives the answer of the reference, for as
many questions, and `learned` holds of its answer and of the cache that it leaves. -/
def Paces (known : NodeCache NodeId → Prop) (learned : α → NodeCache NodeId → Prop)
    (reading reference : Reading α) : Prop :=
  ∀ session session', known session.cache →
    reading.answer session = reference.answer session' ∧
      (reading.after session).calls + session'.calls =
        session.calls + (reference.after session').calls ∧
      learned (reading.answer session) (reading.after session).cache

namespace Paces

variable {known known' : NodeCache NodeId → Prop} {learned learned' : α → NodeCache NodeId → Prop}
  {final : β → NodeCache NodeId → Prop} {reading reference : Reading α}

theorem pure {value : α} (holds : ∀ cache, known cache → learned value cache) :
    Paces known learned (Pure.pure value) (Pure.pure value) :=
  fun _ _ knows => ⟨rfl, rfl, holds _ knows⟩

theorem bind {next next' : α → Reading β} (first : Paces known learned reading reference)
    (second : ∀ value, Paces (learned value) final (next value) (next' value)) :
    Paces known final (reading >>= next) (reference >>= next') := by
  intro session session' knows
  obtain ⟨same, asked, learns⟩ := first session session' knows
  obtain ⟨sameThen, askedThen, learnsThen⟩ := second (reading.answer session)
    (reading.after session) (reference.after session') learns
  rw [answer_bind, answer_bind, after_bind, after_bind, ← same]
  refine ⟨sameThen, ?_, learnsThen⟩
  omega

theorem mono (paces : Paces known learned reading reference)
    (before : ∀ cache, known' cache → known cache)
    (after : ∀ value cache, learned value cache → learned' value cache) :
    Paces known' learned' reading reference := by
  intro session session' knows
  obtain ⟨same, asked, learns⟩ := paces session session' (before _ knows)
  exact ⟨same, asked, after _ _ learns⟩

/-- From one session, both readings come to the same answer and the same number of questions. -/
theorem agree (paces : Paces known learned reading reference) {session : Session}
    (knows : known session.cache) :
    reading.answer session = reference.answer session ∧
      (reading.after session).calls = (reference.after session).calls := by
  obtain ⟨same, asked, _⟩ := paces session session knows
  exact ⟨same, by omega⟩

/-- What a reading leaves behind need not be said. -/
theorem map (change : α → β) (paces : Paces known learned reading reference) :
    Paces known (fun _ _ => True) (do return change (← reading))
      (do return change (← reference)) :=
  paces.bind fun _ => pure fun _ _ => trivial

/-- A reading that looks for what is not stored has to ask. -/
theorem bindConsult {look : NodeCache NodeId → Option β × NodeCache NodeId}
    {next : Option β → Reading α} (missed : ∀ cache, known cache → look cache = (none, cache))
    (asked : Paces known learned (next none) reference) :
    Paces known learned (consult look >>= next) reference := by
  intro session session' knows
  have answered : (consult look).answer session = none :=
    congrArg Prod.fst (missed session.cache knows)
  have kept : ((consult look).after session).cache = session.cache :=
    congrArg Prod.snd (missed session.cache knows)
  have unasked : ((consult look).after session).calls = session.calls := rfl
  rw [answer_bind, after_bind, answered, ← unasked]
  exact asked _ session' (kept.symm ▸ knows)

theorem remember {store : NodeCache NodeId → NodeCache NodeId} {value : α}
    (stores : ∀ cache, known cache → learned value (store cache)) :
    Paces known learned (do Reading.remember store; return value) (Pure.pure value) :=
  fun _ _ knows => ⟨rfl, rfl, stores _ knows⟩

end Paces

/-- A reading keeps pace with a reference and leaves the cache alone, whatever is stored. -/
def AsksAlike (reading reference : Reading α) : Prop :=
  ∀ known : NodeCache NodeId → Prop, Paces known (fun _ => known) reading reference

namespace AsksAlike

theorem pure (value : α) : AsksAlike (Pure.pure value) (Pure.pure value) :=
  fun _ => .pure fun _ knows => knows

theorem bind {reading reference : Reading α} {next next' : α → Reading β}
    (first : AsksAlike reading reference) (second : ∀ value, AsksAlike (next value) (next' value)) :
    AsksAlike (reading >>= next) (reference >>= next') :=
  fun known => (first known).bind fun value => second value known

theorem map {reading reference : Reading α} (change : α → β)
    (first : AsksAlike reading reference) :
    AsksAlike (do return change (← reading)) (do return change (← reference)) :=
  first.bind fun value => pure (change value)

theorem ask (answer : Except HostError α) : AsksAlike (Reading.ask answer) (Reading.ask answer) := by
  intro known session session' knows
  refine ⟨rfl, ?_, knows⟩
  have first : ((Reading.ask answer).after session).calls = session.calls + 1 := rfl
  have second : ((Reading.ask answer).after session').calls = session'.calls + 1 := rfl
  omega

/-- What a reading answers may be known beforehand. -/
theorem gives {reading : Reading α} {value : α} (alike : AsksAlike reading reading)
    (gives : Gives reading value) (known : NodeCache NodeId → Prop) :
    Paces known (fun found cache => found = value ∧ known cache) reading reading := by
  intro session session' knows
  obtain ⟨same, asked, kept⟩ := alike known session session' knows
  exact ⟨same, asked, gives session, kept⟩

end AsksAlike

/-- To keep pace and leave the cache alone is kept when readings are composed. -/
def Congruence.asking : Congruence where
  Relates := AsksAlike
  pure := .pure
  bind := .bind

section Lists

variable {test test' : NodeId → Reading (Option α)}

theorem AsksAlike.searchAmong (tests : ∀ node, AsksAlike (test node) (test' node))
    (nodes : List NodeId) :
    AsksAlike (View.searchAmong test nodes) (View.searchAmong test' nodes) := by
  have relates : ∀ node, Congruence.asking.Relates (test node) (test' node) := tests
  exact Congruence.Relates.searchAmong relates nodes

theorem AsksAlike.collectAmong (tests : ∀ node, AsksAlike (test node) (test' node))
    (nodes : List NodeId) :
    AsksAlike (View.collectAmong test nodes) (View.collectAmong test' nodes) := by
  have relates : ∀ node, Congruence.asking.Relates (test node) (test' node) := tests
  exact Congruence.Relates.collectAmong relates nodes

end Lists

end Reading

namespace Host

open Reading (AsksAlike Paces)

variable {host : Host}

section Unchanged

/-! Questions that the remembering view asks every time. -/

theorem readChild_asksAlike (node : NodeId) (index : Nat) :
    AsksAlike (host.readChild node index) (host.readChild node index) := by
  unfold readChild
  split
  · exact .pure none
  · exact (AsksAlike.ask _).map _

theorem readChildCount_asksAlike (node : NodeId) :
    AsksAlike (host.readChildCount node) (host.readChildCount node) :=
  (AsksAlike.ask _).map _

theorem readAttribute_asksAlike (node : NodeId) (attr : Attribute) :
    AsksAlike (host.readAttribute node attr) (host.readAttribute node attr) := by
  unfold readAttribute
  split
  · exact fun _ _ _ knows => ⟨rfl, rfl, knows⟩
  · exact (AsksAlike.ask _).map _

theorem readIndex_asksAlike (node : NodeId) (keys : List IndexKey) :
    AsksAlike (host.readIndex node keys) (host.readIndex node keys) := by
  unfold readIndex
  split
  · exact .ask _
  · exact .pure none

end Unchanged

/-- What is evaluated without structural names is asked of the host alone. -/
theorem rememberingView_relates (host : Host) :
    host.rememberingView.RelatesWithin .asking ⟨false, false⟩ host.directView where
  parent := nofun
  child := nofun
  childCount := readChildCount_asksAlike
  index := nofun
  depth := nofun
  attributeValue := readAttribute_asksAlike

/-- A child that is not stored is asked for, and stored then. -/
theorem IsPlain.recallChild_paces (plain : host.IsPlain) {node : NodeId} {index : Nat}
    {known : NodeCache NodeId → Prop} {learned : Option NodeId → NodeCache NodeId → Prop}
    (missed : ∀ cache, known cache → cache.child? node index = (none, cache))
    (failed : ∀ cache, known cache → learned none cache)
    (stored : ∀ cache child, host.child node index = .ok (some child) → known cache →
      learned (some child) (cache.insertChild node index child)) :
    Paces known learned (host.recallChild node index) (host.readChild node index) := by
  refine Paces.bindConsult missed ?_
  have asked : host.readChild node index = host.readChild node index >>= pure :=
    (bind_pure _).symm
  rw [asked]
  refine ((readChild_asksAlike node index).gives (plain.gives_child node index) known).bind
    fun found => ?_
  cases found with
  | none => exact .pure fun cache knows => failed cache knows.2
  | some child =>
      exact .remember fun cache knows =>
        stored cache child (eq_ok_of_join_eq_some knows.1.symm) knows.2

end Host

end TreeSelector

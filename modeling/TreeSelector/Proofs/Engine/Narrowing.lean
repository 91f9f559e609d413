import Mathlib.Data.List.TakeWhile
import TreeSelector.Proofs.Engine.Visits

/-!
# Narrowed passes

A pass searches the whole tree unless the notifications that it is for are about one node.
It knows of them what their batch has kept, and a batch keeps no trace of a notification
that has no source.
-/

namespace TreeSelector

open Reading (answer_bind answer_pure)

namespace Notification

theorem sharesKey_iff {first second : Notification} :
    first.sharesKey second = true ↔ first.kind = second.kind ∧ first.appId = second.appId ∧
      first.className = second.className := by
  simp [sharesKey, and_assoc]

end Notification

namespace Batch

variable {events : List Notification} {last : Notification} {node : NodeId}

/-- The notifications are content changes of one application and one class. -/
def AreOneContent (events : List Notification) : Prop :=
  ∃ appId className, ∀ event ∈ events,
    event.kind = .content ∧ event.appId = appId ∧ event.className = className

/-- The last two notifications, or the only one. -/
def lastTwo (events : List Notification) : List Notification := events.drop (events.length - 2)

/-- A node is the source of some of the notifications, and nothing else is. -/
def PointTo (events : List Notification) (node : NodeId) : Prop :=
  (∃ event ∈ events, event.source = some node) ∧
    ∀ event ∈ events, ∀ source ∈ event.source, source = node

theorem runLength_le_length (events : List Notification) (last : Notification) :
    runLength events last ≤ events.length := by
  rw [runLength, ← @List.length_reverse _ events]
  exact (List.takeWhile_prefix _).length_le

theorem runLength_eq_length_iff :
    runLength events last = events.length ↔ ∀ event ∈ events, event.sharesKey last = true := by
  have whole : runLength events last = events.length ↔
      events.reverse.takeWhile (·.sharesKey last) = events.reverse := by
    rw [runLength, ← @List.length_reverse _ events]
    constructor
    · exact (List.takeWhile_prefix _).eq_of_length
    · exact congrArg List.length
  simp [whole, List.takeWhile_eq_self_iff]

theorem areOneContent_iff (ends : events.getLast? = some last) :
    AreOneContent events ↔
      last.kind = .content ∧ ∀ event ∈ events, event.sharesKey last = true := by
  simp only [Notification.sharesKey_iff]
  constructor
  · rintro ⟨appId, className, same⟩
    obtain ⟨kind, rfl, rfl⟩ := same last (List.mem_of_getLast? ends)
    refine ⟨kind, fun event member => ?_⟩
    rw [kind]
    exact same event member
  · rintro ⟨kind, same⟩
    refine ⟨last.appId, last.className, fun event member => ?_⟩
    rw [← kind]
    exact same event member

theorem pointTo_iff :
    PointTo events node ↔ node ∈ events.filterMap (·.source) ∧
      ∀ source ∈ events.filterMap (·.source), source = node := by
  unfold PointTo
  simp only [List.mem_filterMap]
  constructor
  · rintro ⟨there, only⟩
    refine ⟨there, fun source ⟨event, member, named⟩ => only event member source named⟩
  · rintro ⟨there, only⟩
    exact ⟨there, fun event member source named => only source ⟨event, member, named⟩⟩

/-- A batch that keeps two sources at most is about the one that they all are. -/
theorem soleSource?_eq_some_iff {batch : Batch} (few : batch.sources.length ≤ 2) :
    batch.soleSource? = some node ↔ (batch.mixed = false ∧ batch.kind = .content) ∧
      node ∈ batch.sources ∧ ∀ source ∈ batch.sources, source = node := by
  unfold soleSource?
  by_cases usable : batch.mixed = false ∧ batch.kind = .content
  · obtain ⟨unmixed, content⟩ := usable
    simp only [unmixed, content]
    match batch.sources, few with
    | [], _ => simp
    | [only], _ => simp [eq_comm]
    | [older, latest], _ =>
        by_cases same : older = latest
        · simp [same, eq_comm]
        · have apart : ¬ (older = node ∧ latest = node) := by
            rintro ⟨rfl, rfl⟩
            exact same rfl
          simp [same, apart]
  · have unusable : (batch.mixed || batch.kind ≠ .content) = true := by
      cases mixed : batch.mixed <;> simp_all
    simp only [unusable, usable, ↓reduceIte, reduceCtorEq, false_and]

/-- What the batch of some notifications is about. -/
theorem bind_soleSource?_eq_some_iff :
    (ofNotifications? events).bind (·.soleSource?) = some node ↔
      AreOneContent events ∧ PointTo (lastTwo events) node := by
  cases ends : events.getLast? with
  | none =>
      obtain rfl := List.getLast?_eq_none_iff.mp ends
      simp [ofNotifications?, PointTo, lastTwo]
  | some last =>
      have few : ((events.drop (events.length - min (runLength events last) 2)).filterMap
          (·.source)).length ≤ 2 := by
        refine Nat.le_trans (List.length_filterMap_le _ _) ?_
        rw [List.length_drop]
        omega
      rw [ofNotifications?, ends, Option.map_some, Option.bind_some,
        soleSource?_eq_some_iff few, areOneContent_iff ends, ← runLength_eq_length_iff, pointTo_iff]
      by_cases whole : runLength events last = events.length
      · have cut : events.length - min events.length 2 = events.length - 2 := by omega
        simp [whole, cut, lastTwo]
      · have mixed : runLength events last < events.length :=
          Nat.lt_of_le_of_ne (runLength_le_length events last) whole
        simp [whole, mixed]

end Batch

namespace Engine

/-- The nodes below which a pass searches, and whether that is the whole tree; none if it
does not look at the tree. -/
def scope (engine : Engine) (host : Host) (request : PassRequest) :
    Reading (Option (List NodeId × Bool)) := do
  if (engine.enter request).1.isWatching then return some (← roots host request.batch)
  else return none

/-- Goes on with a pass that has begun: visits the rules in some scope. -/
def search (engine : Engine) (host : Host) (request : PassRequest) (begun : List Effect) :
    Option (List NodeId × Bool) → Reading (Engine × PassReport × List Effect)
  | none => return (engine, .opening request engine.passes engine.generation, begun)
  | some (roots, fromRoot) => do
      let report := { PassReport.opening request engine.passes engine.generation with fromRoot }
      if roots.isEmpty then return (engine, report, begun)
      let (rules, visits) ← Rule.visitAll host request roots engine.applicable engine.rules.rules
      return ({ engine with rules := { engine.rules with rules } }, report.withVisits visits,
        begun ++ engine.visitEffects request visits)

/-- A pass begins, finds its scope and searches that. -/
theorem runPass_eq_search (engine : Engine) (host : Host) (request : PassRequest) :
    engine.runPass host request = (do
      let scope ← engine.scope host request
      (engine.enter request).1.search host request (engine.enter request).2 scope) := by
  rw [runPass]
  by_cases watching : (engine.enter request).1.isWatching
  · simp only [look, scope, watching, ↓reduceIte, bind_assoc, pure_bind]
    rfl
  · simp only [look, scope, watching, Bool.false_eq_true, ↓reduceIte, pure_bind]
    rfl

theorem answer_scope (engine : Engine) (host : Host) (request : PassRequest)
    (session : Session) :
    (engine.scope host request).answer session =
      if (engine.enter request).1.isWatching then
        some ((roots host request.batch).answer session)
      else none := by
  unfold scope
  split <;> rfl

theorem answer_readLiveness (host : Host) (node : NodeId) (session : Session) :
    (host.readLiveness node).answer session = host.isLive node := by
  unfold Host.readLiveness Host.isLive
  cases host.access node <;> rfl

/-- The search is narrowed to the node that a batch is about, if it can be accessed. -/
theorem answer_roots_iff {host : Host} {batch : Option Batch} {node : NodeId}
    {session : Session} :
    (roots host batch).answer session = ([node], false) ↔
      batch.bind (·.soleSource?) = some node ∧ host.isLive node = true := by
  have whole : ∀ session, (do return ((← host.readRoot).toList, true)).answer session ≠
      ([node], false) := by
    intro session same
    cases (Prod.mk.inj same).2
  unfold roots
  cases batch.bind (·.soleSource?) with
  | none => simpa using whole session
  | some source =>
      simp only [answer_bind, answer_readLiveness]
      by_cases live : host.isLive source = true
      · simp only [live, ↓reduceIte, answer_pure, Prod.mk.injEq, List.cons.injEq, and_true,
          Option.some.injEq, iff_self_and]
        rintro rfl
        exact live
      · simp only [live, Bool.false_eq_true, ↓reduceIte, whole, false_iff]
        rintro ⟨same, alive⟩
        obtain rfl := Option.some.inj same
        exact live alive

/-- A pass over some notifications narrows its search to a node exactly if it looks at the
tree at all, the notifications are content changes of one application and class, the node is
the source of one of the last two and no other node is the source of the other, and the node
can still be accessed.  Then both of them have it as their source unless one has none. -/
theorem narrows_iff (engine : Engine) (host : Host) (asked : PassRequest)
    (events : List Notification) (node : NodeId) (session : Session) :
    let request := { asked with batch := Batch.ofNotifications? events }
    let narrows := (engine.scope host request).answer session = some ([node], false)
    let last := Batch.lastTwo events
    (engine.runPass host request = do
      let scope ← engine.scope host request
      (engine.enter request).1.search host request (engine.enter request).2 scope) ∧
    (narrows ↔ (engine.enter request).1.isWatching = true ∧ Batch.AreOneContent events ∧
      Batch.PointTo last node ∧ host.isLive node = true) ∧
    (narrows → ((∀ event ∈ last, event.source = some node) ↔
      ∀ event ∈ last, event.source.isSome = true)) := by
  intro request narrows last
  have exactly : narrows ↔ (engine.enter request).1.isWatching = true ∧
      Batch.AreOneContent events ∧ Batch.PointTo last node ∧ host.isLive node = true := by
    unfold narrows
    rw [answer_scope]
    by_cases watching : (engine.enter request).1.isWatching
    · simp only [watching, ↓reduceIte, Option.some.injEq, true_and, answer_roots_iff, request,
        Batch.bind_soleSource?_eq_some_iff, and_assoc, last]
    · simp [watching]
  refine ⟨engine.runPass_eq_search host request, exactly, fun narrowed => ?_⟩
  obtain ⟨_, _, ⟨_, only⟩, _⟩ := exactly.mp narrowed
  constructor
  · intro both event member
    rw [both event member]
    rfl
  · intro sourced event member
    obtain ⟨source, named⟩ := Option.isSome_iff_exists.mp (sourced event member)
    rw [named, only event member source named]

/-- A notification without a source does not keep a pass from narrowing its search to the
source of the next one. -/
theorem narrows_despite_sourceless :
    ¬ ∀ (engine : Engine) (host : Host) (asked : PassRequest) (events : List Notification)
      (node : NodeId) (session : Session), events ≠ [] →
      (engine.scope host { asked with batch := Batch.ofNotifications? events }).answer session =
        some ([node], false) →
      Batch.AreOneContent events ∧
        (∀ event ∈ Batch.lastTwo events, event.source = some node) ∧
        host.isLive node = true := by
  intro always
  let config : EngineConfig := { rules := [{ key := "k", selector := "[text=\"Skip\"]" }] }
  let host : Host :=
    { tree := .ofCaptured
        (.node { appId := some "a" } [.node { text := some "Skip" } [], .node {} []])
      indexed := true }
  let sourceless : Notification := { kind := .content, appId := "a", time := 0 }
  let asked : PassRequest := ⟨none, ⟨"a", some "a.A", 0⟩, .notification, 0⟩
  have narrowed : ((start config {} 0).scope host
      { asked with
        batch := Batch.ofNotifications? [sourceless, { sourceless with source := some 2 }] }).answer
          (.fresh 0) = some ([2], false) := by
    decide +kernel
  obtain ⟨_, both, _⟩ := always _ _ _ _ _ _ (List.cons_ne_nil _ _) narrowed
  cases both sourceless List.mem_cons_self

end Engine

end TreeSelector

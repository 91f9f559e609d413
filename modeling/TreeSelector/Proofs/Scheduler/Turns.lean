import TreeSelector.Proofs.Engine.Runs
import TreeSelector.Scheduler.World

/-!
# Turns of a worker

What happens to a worker, as far as its engine is concerned, falls into turns: something
the worker was told while it held the engine, or a pass with all that the worker was told
before the pass ended.  A service takes turns one after the other.  A worker may go through
any of its operations in any order; a world is one way to have it do so.
-/

namespace TreeSelector

/-- What it comes to for an engine to be told something at some time. -/
def Deferred.event (now : Time) : Deferred → Event
  | .command (.configure config) => .configure config now
  | .command (.resetRule key) => .reset key now
  | .actionFinished report => .report report.rule report.generation report.succeeded

def Deferred.config? : Deferred → Option EngineConfig
  | .command (.configure config) => some config
  | _ => none

/-- How a pass ends: it looks at a tree, or it comes to grief. -/
inductive Ending where
  | landed (host : Host) (session : Session)
  | failed

/-- What happens to a worker as far as its engine is concerned. -/
inductive Occurrence where
  /-- A command or the report of an action is received. -/
  | received (item : Deferred) (now : Time)
  /-- A pass starts. -/
  | departed (request : PassRequest)
  | ended (ending : Ending) (now : Time)

namespace Occurrence

def isDeparture : Occurrence → Bool
  | departed _ => true
  | _ => false

def isEnding : Occurrence → Bool
  | ended _ _ => true
  | _ => false

/-- What is received at some time. -/
def ofTold (told : Deferred × Time) : Occurrence := received told.1 told.2

end Occurrence

inductive Turn where
  /-- The worker is told something while no pass is in flight. -/
  | told (item : Deferred) (now : Time)
  /-- A pass, what the worker is told meanwhile, and the end of the pass. -/
  | flown (request : PassRequest) (meanwhile : List (Deferred × Time)) (ending : Ending)
      (now : Time)

def Turn.occurrences : Turn → List Occurrence
  | told item now => [.received item now]
  | flown request meanwhile ending now =>
      .departed request :: meanwhile.map .ofTold ++ [.ended ending now]

/-- An engine with the configuration in force. -/
structure Service where
  config : EngineConfig
  engine : Engine

namespace Service

def start (config : EngineConfig) (timing : Timing) (now : Time) : Service :=
  ⟨config, .start config timing now⟩

/-- Something is told at some time. -/
def obey (now : Time) (service : Service) (item : Deferred) : Service where
  config := item.config?.getD service.config
  engine := service.engine.react (item.event now)

/-- A pass is over; if it failed, the engine is built anew. -/
def conclude (service : Service) (timing : Timing) (request : PassRequest) (now : Time) :
    Ending → Service
  | .landed host session =>
      { service with engine := service.engine.react (.pass host request session) }
  | .failed => .start service.config timing now

/-- A turn is taken.  What is told during a pass is obeyed directly after it. -/
def take (timing : Timing) (service : Service) : Turn → Service
  | .told item now => service.obey now item
  | .flown request meanwhile ending now =>
      (meanwhile.map (·.1)).foldl (obey now) (service.conclude timing request now ending)

/-- Turns are taken one after the other. -/
def takeAll (service : Service) (timing : Timing) (turns : List Turn) : Service :=
  turns.foldl (take timing) service

end Service

section Counting

open Occurrence (isDeparture isEnding)

theorem countP_ofTold (counts : Occurrence → Bool)
    (skips : ∀ item now, counts (.received item now) = false)
    (meanwhile : List (Deferred × Time)) :
    (meanwhile.map Occurrence.ofTold).countP counts = 0 := by
  rw [List.countP_map, List.countP_eq_zero]
  intro told _
  exact (skips told.1 told.2).trans_ne Bool.false_ne_true

/-- Every turn begins and ends as many passes. -/
theorem countP_occurrences (turn : Turn) :
    turn.occurrences.countP isDeparture = turn.occurrences.countP isEnding := by
  cases turn with
  | told item now => rfl
  | flown request meanwhile ending now =>
      have departed := countP_ofTold isDeparture (fun _ _ => rfl) meanwhile
      have ended := countP_ofTold isEnding (fun _ _ => rfl) meanwhile
      simp only [Turn.occurrences, List.cons_append, List.countP_cons, List.countP_append,
        departed, ended]
      rfl

theorem countP_flatMap_occurrences (turns : List Turn) :
    (turns.flatMap Turn.occurrences).countP isDeparture =
      (turns.flatMap Turn.occurrences).countP isEnding := by
  rw [List.countP_flatMap, List.countP_flatMap]
  exact congrArg List.sum (List.map_congr_left fun turn _ => countP_occurrences turn)

end Counting

section Runs

variable {timing : Timing}

/-- The engine of a service went through a run since it was new. -/
def Service.IsRun (service : Service) (timing : Timing) : Prop :=
  ∃ config began events, service.engine = (Engine.start config timing began).run events

theorem Service.IsRun.react {service : Service} (run : service.IsRun timing) (event : Event)
    (config : EngineConfig) : Service.IsRun ⟨config, service.engine.react event⟩ timing := by
  obtain ⟨first, began, events, same⟩ := run
  refine ⟨first, began, events ++ [event], ?_⟩
  rw [Engine.run_append, ← same]
  rfl

theorem Service.IsRun.obeyAll {service : Service} (run : service.IsRun timing) (now : Time)
    (items : List Deferred) : (items.foldl (obey now) service).IsRun timing := by
  induction items generalizing service with
  | nil => exact run
  | cons item items hypothesis => exact hypothesis (run.react (item.event now) _)

theorem Service.IsRun.take {service : Service} (run : service.IsRun timing) (turn : Turn) :
    (service.take timing turn).IsRun timing := by
  cases turn with
  | told item now => exact run.react (item.event now) _
  | flown request meanwhile ending now =>
      cases ending with
      | landed host session =>
          exact (run.react (.pass host request session) service.config).obeyAll now _
      | failed =>
          have rebuilt : (Service.start service.config timing now).IsRun timing :=
            ⟨service.config, now, [], rfl⟩
          exact rebuilt.obeyAll now _

/-- Turns are a run of some new engine; it is built anew whenever a pass fails. -/
theorem Service.takeAll_isRun (config : EngineConfig) (timing : Timing) (began : Time)
    (turns : List Turn) : ((start config timing began).takeAll timing turns).IsRun timing := by
  have taken (service : Service) (run : service.IsRun timing) :
      (service.takeAll timing turns).IsRun timing := by
    induction turns generalizing service with
    | nil => exact run
    | cons turn turns hypothesis => exact hypothesis _ (run.take turn)
  exact taken _ ⟨config, began, [], rfl⟩

end Runs

/-- Whether what is in front is looked up. -/
def Stage.isLookingUp : Stage → Bool
  | lookingUp _ _ => true
  | _ => false

namespace Worker

/-- What a worker takes in while it looks nothing up. -/
inductive Message where
  | command (command : Command)
  | notified
  /-- A timer fired. -/
  | recheck (trigger : PassTrigger)
  | report (report : ActionReport)

/-- What of a message concerns the engine. -/
def Message.items : Message → List Deferred
  | .command order => [.command order]
  | .report outcome => [.actionFinished outcome]
  | .notified | .recheck _ => []

def receive (worker : Worker) (now : Time) : Message → Worker
  | .command command => worker.command command now
  | .notified => worker.notified
  | .recheck trigger => worker.request trigger
  | .report report => worker.actionFinished report now

/-- The pass in flight ends. -/
def finish (worker : Worker) (flight : Flight) (now : Time) : Ending → Worker
  | .landed host session =>
      let outcome := (flight.engine.look host flight.request flight.begun).answer session
      worker.passFinished outcome.1 outcome.2.1 outcome.2.2 now
  | .failed => worker.passFailed now

/-- The departure of the pass that starts as a worker goes on, if one does. -/
def departures (before after : Worker) : List Occurrence :=
  match before.stage.heldEngine?, after.stage with
  | some _, .flying flight => [.departed flight.request]
  | _, _ => []

/-- What may happen to a worker next, whatever surrounds it. -/
inductive Step (worker : Worker) : List Occurrence → Worker → Prop where
  | submit (notification : Notification) : Step worker [] (worker.submit notification).2
  | listen : Step worker [] worker.listen
  | receive (awake : worker.stage.isLookingUp = false) (front : Foreground) (now : Time)
      (message : Message) :
      Step worker
        (message.items.map (.received · now) ++ (worker.receive now message).departures
          ((worker.receive now message).proceed front now))
        ((worker.receive now message).proceed front now)
  | answer (answer : Option Identity) (front : Foreground) (now : Time) :
      Step worker
        (worker.departures ((worker.answered answer front.tree now).proceed front now))
        ((worker.answered answer front.tree now).proceed front now)
  | finish {flight : Flight} (flying : worker.stage = .flying flight) (ending : Ending)
      (front : Foreground) (now : Time) :
      Step worker
        (.ended ending now :: (worker.finish flight now ending).departures
          ((worker.finish flight now ending).proceed front now))
        ((worker.finish flight now ending).proceed front now)

/-- A worker that was started at some time, with what has happened to it since. -/
inductive Reached (config : EngineConfig) (timing : Timing) (activities : ActivityTable)
    (began : Time) : Worker → List Occurrence → Prop where
  | start : Reached config timing activities began (.start config timing activities began) []
  | step {worker after : Worker} {history occurrences : List Occurrence} :
      Reached config timing activities began worker history → worker.Step occurrences after →
      Reached config timing activities began after (history ++ occurrences)

end Worker

namespace World

open Worker (Reached)

variable {config : EngineConfig} {timing : Timing} {activities : ActivityTable} {began : Time}
  {world next : World} {history : List Occurrence}

theorem worker_askTop (world : World) : world.askTop.2.worker = world.worker := by
  simp only [askTop]
  split <;> rfl

theorem worker_startLookup (world : World) : world.startLookup.worker = world.worker := by
  unfold startLookup
  split
  · exact world.worker_askTop
  · rfl

theorem worker_proceed (world : World) (worker : Worker) :
    (world.proceed worker).worker = worker.proceed world.host.front world.now :=
  worker_startLookup _

theorem step_finishLookup? (goesOn : world.finishLookup? = some next) :
    ∃ occurrences, world.worker.Step occurrences next.worker := by
  simp only [finishLookup?] at goesOn
  split at goesOn
  · rename_i due answer asked
    split at goesOn
    · obtain rfl := Option.some.inj goesOn
      rw [worker_proceed]
      exact ⟨_, .answer answer world.host.front world.now⟩
    · cases goesOn
  · cases goesOn

theorem step_takeMessage? (goesOn : world.takeMessage? = some next) :
    ∃ occurrences, world.worker.Step occurrences next.worker := by
  simp only [takeMessage?] at goesOn
  split at goesOn
  · cases goesOn
  · rename_i others
    have awake : world.worker.stage.isLookingUp = false := by
      cases stage : world.worker.stage with
      | idle _ => rfl
      | lookingUp engine departure => exact absurd stage (others engine departure)
      | flying _ => rfl
    split at goesOn
    · obtain rfl := Option.some.inj goesOn
      rw [worker_proceed]
      exact ⟨_, .receive awake world.host.front world.now (.command _)⟩
    · obtain rfl := Option.some.inj goesOn
      rw [worker_proceed]
      exact ⟨_, .receive awake world.host.front world.now .notified⟩
    · obtain rfl := Option.some.inj goesOn
      rw [worker_proceed]
      exact ⟨_, .receive awake world.host.front world.now (.recheck _)⟩
    · obtain rfl := Option.some.inj goesOn
      rw [worker_proceed]
      exact ⟨_, .receive awake world.host.front world.now (.report _)⟩
    · cases goesOn

theorem step_land {flight : Flight} (flying : world.worker.stage = .flying flight) :
    ∃ occurrences, world.worker.Step occurrences (world.land flight).worker := by
  unfold land
  split
  · rw [worker_proceed]
    exact ⟨_, .finish flying .failed world.host.front world.now⟩
  · rename_i host _
    split
    rename_i engine report effects session outcome
    split
    · rw [worker_proceed]
      exact ⟨_, .finish flying .failed world.host.front world.now⟩
    · have answer : (flight.engine.look host flight.request flight.begun).answer
          (.fresh defaultCapacity) = (engine, report, effects) := congrArg Prod.fst outcome
      have finished : world.worker.finish flight world.now
          (.landed host (.fresh defaultCapacity)) =
          world.worker.passFinished engine report effects world.now := by
        simp only [Worker.finish, answer]
      dsimp only
      rw [worker_proceed, ← finished]
      exact ⟨_, .finish flying (.landed host (.fresh defaultCapacity)) world.host.front world.now⟩

theorem step_finishPass? (goesOn : world.finishPass? = some next) :
    ∃ occurrences, world.worker.Step occurrences next.worker := by
  simp only [finishPass?] at goesOn
  split at goesOn
  · rename_i flight flying
    obtain ⟨passed, gone, rfl⟩ := Option.map_eq_some_iff.mp goesOn
    have same : passed.worker = world.worker := by
      simp only [passGate?] at gone
      split at gone
      · split at gone
        · rw [← Option.some.inj gone]
        · cases gone
        · rw [← Option.some.inj gone]
      · rw [← Option.some.inj gone]
    rw [← same] at flying ⊢
    exact step_land flying
  · cases goesOn

/-- What happens in a world leaves its worker alone or is something that may happen to it. -/
theorem step_or_same (goesOn : world.step? = some next) :
    (∃ occurrences, world.worker.Step occurrences next.worker) ∨ next.worker = world.worker := by
  simp only [step?, Option.or_eq_some_iff] at goesOn
  rcases goesOn with lookup | ⟨-, action | ⟨-, timer | ⟨-, request | ⟨-, message | ⟨-, pass⟩⟩⟩⟩⟩
  · exact .inl (step_finishLookup? lookup)
  · right
    simp only [finishAction?] at action
    split at action
    · split at action
      · rw [← Option.some.inj action]
      · cases action
    · cases action
  · right
    obtain ⟨fired, -, rfl⟩ := Option.map_eq_some_iff.mp timer
    rfl
  · right
    simp only [startAction?] at request
    split at request
    · rw [← Option.some.inj request]
    · cases request
  · exact .inl (step_takeMessage? message)
  · exact .inl (step_finishPass? pass)

theorem reached_step? (reached : Reached config timing activities began world.worker history)
    (goesOn : world.step? = some next) :
    ∃ later, Reached config timing activities began next.worker (history ++ later) := by
  rcases step_or_same goesOn with ⟨occurrences, step⟩ | same
  · exact ⟨occurrences, .step reached step⟩
  · exact ⟨[], by rwa [same, List.append_nil]⟩

/-- In the course of time a worker in a world goes through its operations and nothing else. -/
theorem reached_runUntil (reached : Reached config timing activities began world.worker history)
    (target : Time) (limit : Nat) :
    ∃ later, Reached config timing activities began (world.runUntil target limit).worker
      (history ++ later) := by
  induction limit generalizing world history with
  | zero => exact ⟨[], by rwa [List.append_nil]⟩
  | succ limit hypothesis =>
      rw [runUntil]
      split
      · rename_i next goesOn
        obtain ⟨first, reached'⟩ := reached_step? reached goesOn
        obtain ⟨later, reached''⟩ := hypothesis reached'
        exact ⟨first ++ later, by rwa [← List.append_assoc]⟩
      · have rested : Reached config timing activities began world.rest.worker (history ++ []) :=
          .step reached .listen
        split
        · rename_i due _
          have awaited : Reached config timing activities began
              ({ world.rest with now := due } : World).worker (history ++ []) := rested
          obtain ⟨later, reached'⟩ := hypothesis awaited
          exact ⟨later, by rwa [List.append_nil] at reached'⟩
        · exact ⟨[], rested⟩

end World

end TreeSelector

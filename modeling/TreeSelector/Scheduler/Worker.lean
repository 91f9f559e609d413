import TreeSelector.Engine.Basic
import TreeSelector.Identity.Memory
import TreeSelector.Notification.Queue
import TreeSelector.Notification.Throttle
import TreeSelector.Scheduler.Action

/-!
# The worker

The worker decides when passes run.  At most one pass is in flight, and at most
one more is asked for.  Before a pass starts, the worker finds out what is in
front; where its cheap sources are silent or disagree with what it knows, it
looks that up and does nothing else meanwhile.  While a pass is in flight it
holds the engine, and what needs the engine is put off until the pass is over.
-/

namespace TreeSelector

/-- What a host tells about what is in front. -/
structure Foreground where
  /-- The name of the tree as it is now. -/
  tree : String
  /-- The application in front; this answer is cheap and may be late. -/
  activeApp : Option String := none
  /-- The applications with those of their classes that are activities. -/
  activities : List (String × String) := []
  /-- The answers to what is in front, one after the other; the last one repeats. -/
  top : List (Option Identity) := []
  /-- How long such an answer takes. -/
  topDelay : Nat := 0

/-- How often a host was asked what. -/
structure Questions where
  activeApp : Nat := 0
  top : Nat := 0
  isActivity : Nat := 0

/-- Something the worker is told to do. -/
inductive Command where
  | configure (config : EngineConfig)
  | resetRule (key : String)

/-- What was put off because a pass held the engine. -/
inductive Deferred where
  | command (command : Command)
  | actionFinished (report : ActionReport)

/-- A pass that is about to start. -/
structure Departure where
  trigger : PassTrigger
  batch : Option Batch
  /-- The cheap answer to which application is in front. -/
  appId : Option String
  since : Time

/-- A pass in flight; it holds the engine. -/
structure Flight where
  engine : Engine
  request : PassRequest
  /-- The effects of its beginning. -/
  begun : List Effect
  tree : String

/-- Who holds the engine, and what is waited for. -/
inductive Stage where
  | idle (engine : Engine)
  /-- What is in front is looked up for a pass. -/
  | lookingUp (engine : Engine) (departure : Departure)
  | flying (flight : Flight)

namespace Stage

def engine : Stage → Engine
  | idle engine | lookingUp engine _ => engine
  | flying flight => flight.engine

/-- The engine, unless a pass holds it. -/
def heldEngine? : Stage → Option Engine
  | idle engine | lookingUp engine _ => some engine
  | flying _ => none

/-- Puts a changed engine in the place of one that no pass holds. -/
def withEngine (changed : Engine) : Stage → Stage
  | idle _ => idle changed
  | lookingUp _ departure => lookingUp changed departure
  | flying flight => flying flight

end Stage

/-- A request for a pass that waits for its time.  It is void once the rule it
belongs to starts anew, or once something else is in front. -/
structure Timer where
  due : Time
  trigger : PassTrigger
  /-- The delays of which rule it belongs to, if any. -/
  token : Option TimerToken
  series : Nat

structure Worker where
  config : EngineConfig
  timing : Timing
  stage : Stage
  activities : ActivityTable
  appIds : AppIdMemory
  queue : NotificationQueue := {}
  throttle : Throttle := {}
  tracker : IdentityTracker := {}
  asked : Questions := {}
  /-- The application in front at the last pass. -/
  frontApp : Option String := none
  /-- Whether what is in front has to be looked up for the next pass. -/
  forceLookup : Bool := false
  /-- What asked first for another pass. -/
  pending : Option PassTrigger := none
  /-- What was put off, the oldest first. -/
  deferred : List Deferred := []
  /-- The generation of the engine at the last pass. -/
  generation : Nat := 0
  /-- The number of the timers that are not void. -/
  series : Nat := 0

namespace Worker

def start (config : EngineConfig) (timing : Timing) (activities : ActivityTable)
    (now : Time) : Worker :=
  { config, timing, activities
    stage := .idle (.start config timing now)
    appIds := { lifetime := timing.appIdTtl.toNat } }

section Requests

/-- Asks for a pass, unless one was asked for already. -/
def request (worker : Worker) (trigger : PassTrigger) : Worker :=
  { worker with pending := worker.pending.or (some trigger) }

/-- Lets a notification into the queue or drops it. -/
def submit (worker : Worker) (notification : Notification) : Bool × Worker :=
  let (accepted, throttle) := worker.throttle.accept notification
  let queue := if accepted then worker.queue.push notification else worker.queue
  (accepted, { worker with throttle, queue })

/-- Wakes up to the notifications in the queue. -/
def notified (worker : Worker) : Worker :=
  { worker with queue := worker.queue.answer }.request .notification

/-- Waits for what may come, unless it waits for something else already. -/
def listen (worker : Worker) : Worker :=
  match worker.stage with
  | .lookingUp _ _ => worker
  | _ => { worker with queue := worker.queue.attend }

/-- Does what it is told with the engine at hand. -/
def execute (worker : Worker) (engine : Engine) (now : Time) : Command → Worker
  | .configure config =>
      let stage := worker.stage.withEngine (engine.configure config now)
      { worker with stage, config }.request .config
  | .resetRule key =>
      let (found, engine) := engine.resetRule key now
      let worker := { worker with stage := worker.stage.withEngine engine }
      if found then worker.request .config else worker

/-- Does what it is told, or puts it off. -/
def command (worker : Worker) (command : Command) (now : Time) : Worker :=
  match worker.stage.heldEngine? with
  | some engine => worker.execute engine now command
  | none => { worker with deferred := worker.deferred ++ [.command command] }

/-- Passes the report of an action on to the engine, or puts that off. -/
def settleAction (worker : Worker) (report : ActionReport) : Worker :=
  match worker.stage.heldEngine? with
  | some engine =>
      let engine := engine.actionFinished report.rule report.generation report.succeeded
      { worker with stage := worker.stage.withEngine engine }
  | none => { worker with deferred := worker.deferred ++ [.actionFinished report] }

def actionFinished (worker : Worker) (report : ActionReport) (now : Time) : Worker :=
  let throttle :=
    if report.succeeded then worker.throttle.triggered now else worker.throttle
  { worker with throttle }.settleAction report

/-- Does one thing that was put off. -/
def resume (now : Time) (worker : Worker) : Deferred → Worker
  | .command command => worker.command command now
  | .actionFinished report => worker.settleAction report

/-- Does what was put off, in order. -/
def applyDeferred (worker : Worker) (now : Time) : Worker :=
  worker.deferred.foldl (resume now) { worker with deferred := [] }

end Requests

section Departures

/-- Takes note of the activity that a batch brings to the front. -/
def noteActivity (worker : Worker) (front : Foreground) (batch : Option Batch) (now : Time) :
    Worker :=
  match batch.bind (·.activity) with
  | none => worker
  | some (appId, className) =>
      let (known, activities) := worker.activities.consult appId className
      let answer := known.getD (front.activities.contains (appId, className))
      let worker :=
        if known.isSome then { worker with activities }
        else { worker with
          activities := activities.learn appId className answer
          asked.isActivity := worker.asked.isActivity + 1 }
      if answer then
        { worker with tracker := (worker.tracker.enter appId (some className) now).2 }
      else worker

/-- Which application is in front, from the cheap source or from memory. -/
def cheapAppId (worker : Worker) (front : Foreground) (now : Time) :
    Option String × Worker :=
  match worker.appIds.consult now with
  | some answer => (answer, worker)
  | none =>
      (front.activeApp, { worker with
        appIds := worker.appIds.learn front.activeApp now
        asked.activeApp := worker.asked.activeApp + 1 })

/-- Whether what is in front has to be looked up. -/
def mustLookUp (worker : Worker) (appId : Option String) : Bool :=
  worker.forceLookup || appId.isNone || appId ≠ worker.tracker.current.map (·.appId)

/-- Starts a pass; as long as nothing is known to be in front, there is none. -/
def launch (worker : Worker) (engine : Engine) (departure : Departure) (tree : String)
    (now : Time) : Worker :=
  match worker.tracker.current with
  | none => { worker with stage := .idle engine }
  | some identity =>
      let request : PassRequest := ⟨departure.batch, identity, departure.trigger, now⟩
      let (engine, begun) := engine.enter request
      { worker with stage := .flying { engine, request, begun, tree } }

/-- Prepares a pass and starts it unless what is in front has to be looked up. -/
def depart (worker : Worker) (engine : Engine) (front : Foreground) (trigger : PassTrigger)
    (now : Time) : Worker :=
  let (batch, queue) := worker.queue.drain
  let (appId, worker) := ({ worker with queue }.noteActivity front batch now).cheapAppId front now
  let departure : Departure := { trigger, batch, appId, since := now }
  if worker.mustLookUp appId then
    { worker with
      forceLookup := false
      asked.top := worker.asked.top + 1
      stage := .lookingUp engine departure }
  else worker.launch engine departure front.tree now

/-- Stops waiting, and starts the pass that was asked for if none is in flight or
about to start. -/
def proceed (worker : Worker) (front : Foreground) (now : Time) : Worker :=
  let worker := { worker with queue := worker.queue.leave }
  match worker.stage, worker.pending with
  | .idle engine, some trigger =>
      { worker with pending := none }.depart engine front trigger now
  | _, _ => worker

/-- Takes note of what was looked up.  Without an answer the cheap one has to do. -/
def learnFront (worker : Worker) (departure : Departure) (answer : Option Identity) :
    Worker :=
  let tracker :=
    match answer, departure.appId with
    | some top, _ => (worker.tracker.confirm top.appId top.activityId departure.since).2
    | none, some appId => (worker.tracker.observe appId departure.since).2
    | none, none => worker.tracker
  { worker with tracker }

/-- What is in front was looked up, in vain if there is no answer. -/
def answered (worker : Worker) (answer : Option Identity) (tree : String) (now : Time) :
    Worker :=
  match worker.stage with
  | .lookingUp engine departure =>
      (worker.learnFront departure answer).launch engine departure tree now
  | _ => worker

end Departures

section Arrivals

/-- What another generation makes void. -/
def noteGeneration (worker : Worker) (generation : Nat) : Worker :=
  if generation = worker.generation then worker
  else { worker with generation, series := worker.series + 1 }

def noteFrontApp (worker : Worker) (appId : String) (now : Time) : Worker :=
  if worker.frontApp = some appId then worker
  else { worker with frontApp := some appId, throttle := worker.throttle.appChanged now }

/-- What an effect changes about the worker itself. -/
def noteEffect (worker : Worker) : Effect → Worker
  | .identityMismatch _ _ =>
      { worker with forceLookup := true, appIds := worker.appIds.forget }.request
        .identityMismatch
  | _ => worker

/-- The timer that an effect arms. -/
def timer? (worker : Worker) (now : Time) : Effect → Option Timer
  | .armMatchDelay _ due token | .armActionDelay _ due token =>
      some ⟨due, .delay, some token, worker.series⟩
  | .recheck => some ⟨now + worker.timing.recheckDelay.toNat, .recheck, none, worker.series⟩
  | _ => none

/-- The pass in flight is over. -/
def passFinished (worker : Worker) (engine : Engine) (report : PassReport)
    (effects : List Effect) (now : Time) : Worker :=
  let worker := (worker.noteGeneration engine.generation).noteFrontApp report.identity.appId now
  effects.foldl noteEffect ({ worker with stage := .idle engine }.applyDeferred now)

/-- The pass in flight came to grief, and the engine with it. -/
def passFailed (worker : Worker) (now : Time) : Worker :=
  { worker with stage := .idle (.start worker.config worker.timing now) }.applyDeferred now

end Arrivals

/-- Whether a timer is not void. -/
def awaits (worker : Worker) (timer : Timer) : Bool :=
  timer.series = worker.series && timer.token.all worker.stage.engine.holds

end Worker

end TreeSelector

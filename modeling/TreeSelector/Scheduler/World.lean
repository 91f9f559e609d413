import TreeSelector.Scheduler.Worker

/-!
# The scheduler's world

A worker with all that surrounds it: the host and its trees, messages on their
way to the worker, armed timers, the action being performed, and a clock.  The
clock stands still while anything can happen, and then moves on to the next
moment at which something is due.
-/

namespace TreeSelector

/-- What the world shows of the scheduler. -/
inductive SchedulerEvent where
  | passCompleted (report : PassReport)
  | action (report : ActionReport)

structure HostBehaviour where
  front : Foreground
  /-- Why actions fail, if they do. -/
  actionFailure : Option ActionError := none
  /-- How long an action takes. -/
  actionDelay : Nat := 0

structure World where
  worker : Worker
  host : HostBehaviour
  trees : List (String × Host)
  /-- Notifications from these applications are dropped. -/
  ignored : List String
  now : Time := 0
  commands : List Command := []
  rechecks : List PassTrigger := []
  reports : List ActionReport := []
  /-- The actions to be performed, the oldest first. -/
  requests : List ActionRequest := []
  /-- The action being performed, and when it is over. -/
  acting : Option (Time × ActionReport) := none
  timers : List Timer := []
  /-- When what is in front is known or given up, and the answer. -/
  lookup : Option (Time × Option Identity) := none
  /-- How many more passes may look at the tree, if there is a limit. -/
  gate : Option Nat := none
  /-- What happened, the latest first. -/
  events : List (Time × SchedulerEvent) := []
  /-- The actions begun, the latest first. -/
  performed : List (Time × NodeId × RuleAction) := []

namespace World

/-- The world in which a scheduler is started. -/
def start (config : EngineConfig) (timing : Timing) (capacity : Nat) (host : HostBehaviour)
    (trees : List (String × Host)) : World :=
  { worker := .start config timing (.empty capacity) 0
    host, trees
    ignored := config.ignoredAppIds }

section Commands

/-- The host notifies of a change.  Also tells whether that is let into the queue. -/
def submit (world : World) (notification : Notification) : Bool × World :=
  if world.ignored.contains notification.appId then (false, world)
  else
    let (accepted, worker) := world.worker.submit notification
    (accepted, { world with worker })

def configure (world : World) (config : EngineConfig) : World :=
  { world with
    ignored := config.ignoredAppIds
    commands := world.commands ++ [.configure config] }

def resetRule (world : World) (key : String) : World :=
  { world with commands := world.commands ++ [.resetRule key] }

def detach (world : World) (tree : String) (node : NodeId) : World :=
  { world with
    trees := world.trees.map fun (name, host) =>
      (name, if name = tree then host.detach node else host) }

end Commands

section Steps

/-- The authoritative answer, which is fixed as soon as it is asked for, and the
world afterwards. -/
def askTop (world : World) : Option Identity × World :=
  match world.host.front.top with
  | [] => (none, world)
  | [answer] => (answer, world)
  | answer :: others => (answer, { world with host.front.top := others })

/-- If the worker has just begun to look something up, asks for it and sets the
moment at which the worker goes on. -/
def startLookup (world : World) : World :=
  match world.worker.stage, world.lookup with
  | .lookingUp _ _, none =>
      let (answer, world) := world.askTop
      let delay := world.host.front.topDelay
      let timeout := world.worker.timing.identityTimeout.toNat
      let lookup :=
        if delay ≤ timeout then (world.now + delay, answer) else (world.now + timeout, none)
      { world with lookup := some lookup }
  | _, _ => world

/-- The worker has changed and goes on with what was asked of it. -/
def proceed (world : World) (worker : Worker) : World :=
  { world with worker := worker.proceed world.host.front world.now }.startLookup

/-- The end of a lookup that is due. -/
def finishLookup? (world : World) : Option World :=
  match world.lookup with
  | some (due, answer) =>
      if due ≤ world.now then
        let worker := world.worker.answered answer world.host.front.tree world.now
        some ({ world with lookup := none }.proceed worker)
      else none
  | none => none

/-- The end of an action that is due. -/
def finishAction? (world : World) : Option World :=
  match world.acting with
  | some (due, report) =>
      if due ≤ world.now then
        some { world with acting := none, reports := world.reports ++ [report] }
      else none
  | none => none

/-- The next action, if none is being performed. -/
def startAction? (world : World) : Option World :=
  match world.acting, world.requests with
  | none, request :: requests =>
      let report := ActionReport.ofRequest request world.host.actionFailure
      some { world with
        requests
        acting := some (world.now + world.host.actionDelay, report)
        performed := (world.now, request.node, request.action) :: world.performed }
  | _, _ => none

/-- Takes the first timer that is due out of some timers. -/
def takeDue? (now : Time) : List Timer → Option (Timer × List Timer)
  | [] => none
  | timer :: timers =>
      if timer.due ≤ now then some (timer, timers)
      else (takeDue? now timers).map fun (due, others) => (due, timer :: others)

/-- A timer that is due fires unless it is void. -/
def fireTimer? (world : World) : Option World :=
  (takeDue? world.now world.timers).map fun (timer, timers) =>
    let rechecks :=
      if world.worker.awaits timer then world.rechecks ++ [timer.trigger] else world.rechecks
    { world with timers, rechecks }

/-- The worker takes a message, unless it looks something up. -/
def takeMessage? (world : World) : Option World :=
  match world.worker.stage with
  | .lookingUp _ _ => none
  | _ =>
      match world.commands, world.worker.queue.calls, world.rechecks, world.reports with
      | command :: commands, _, _, _ =>
          some ({ world with commands }.proceed (world.worker.command command world.now))
      | [], true, _, _ => some (world.proceed world.worker.notified)
      | [], false, trigger :: rechecks, _ =>
          some ({ world with rechecks }.proceed (world.worker.request trigger))
      | [], false, [], report :: reports =>
          let events := (world.now, .action report) :: world.events
          some ({ world with reports, events }.proceed
            (world.worker.actionFinished report world.now))
      | [], false, [], [] => none

/-- Carries out the effects of a pass as far as they concern the world. -/
def carryOut (world : World) (effects : List Effect) : World :=
  { world with
    timers := world.timers ++ effects.filterMap (world.worker.timer? world.now)
    requests := world.requests ++ effects.filterMap fun
      | .act request => some request
      | _ => none }

/-- The timers when the engine is lost: those of its rules that are not void can no
longer become so by a reset of their rule. -/
def orphans (worker : Worker) (timers : List Timer) : List Timer :=
  (timers.filter worker.awaits).map fun timer => { timer with token := none }

/-- The pass in flight looks at its tree and is over. -/
def land (world : World) (flight : Flight) : World :=
  match world.trees.lookup flight.tree with
  | none => world.proceed (world.worker.passFailed world.now)
  | some host =>
      let ((engine, report, effects), session) :=
        (flight.engine.look host flight.request flight.begun).run (.fresh defaultCapacity)
      if session.broken then
        { world with timers := orphans world.worker world.timers }.proceed
          (world.worker.passFailed world.now)
      else
        let worker := world.worker.passFinished engine report effects world.now
        let events := (world.now, .passCompleted report) :: world.events
        ({ world with worker, events }.carryOut effects).proceed worker

/-- Lets a pass through the gate, if it does not have to wait there. -/
def passGate? (world : World) (flight : Flight) : Option World :=
  if flight.engine.isWatching then
    match world.gate with
    | none => some world
    | some 0 => none
    | some (remaining + 1) => some { world with gate := some remaining }
  else some world

/-- The end of the pass in flight, unless it is stopped at the gate. -/
def finishPass? (world : World) : Option World :=
  match world.worker.stage with
  | .flying flight => (world.passGate? flight).map (·.land flight)
  | _ => none

/-- One thing that can happen now, if anything can. -/
def step? (world : World) : Option World :=
  world.finishLookup?.or <| world.finishAction?.or <| world.fireTimer?.or <|
    world.startAction?.or <| world.takeMessage?.or world.finishPass?

end Steps

section Runs

/-- The next moment at which something is due. -/
def nextDue? (world : World) : Option Time :=
  (world.timers.map (·.due) ++ (world.lookup.map (·.1)).toList ++
    (world.acting.map (·.1)).toList).min?

/-- The world when nothing can happen at this moment. -/
def rest (world : World) : World := { world with worker := world.worker.listen }

/-- Lets things happen until nothing can at this moment; at most `limit` do. -/
def settle (world : World) : (limit : Nat) → World
  | 0 => world
  | limit + 1 =>
      match world.step? with
      | some next => settle next limit
      | none => world.rest

/-- Lets things happen before a moment; at most `limit` do. -/
def runUntil (world : World) (target : Time) : (limit : Nat) → World
  | 0 => world
  | limit + 1 =>
      match world.step? with
      | some next => runUntil next target limit
      | none =>
          match world.nextDue?.filter (· < target) with
          | some due => runUntil { world.rest with now := due } target limit
          | none => { world.rest with now := target }

/-- How much may happen at one go. -/
def stepLimit : Nat := 1000000

/-- Lets things happen without the clock moving on. -/
def settled (world : World) : World := world.settle stepLimit

/-- Lets things happen for some time. -/
def sleep (world : World) (duration : Nat) : World :=
  world.runUntil (world.now + duration) stepLimit

/-- The world after all that happened was taken note of. -/
def noted (world : World) : World := { world with events := [], performed := [] }

end Runs

end World

end TreeSelector

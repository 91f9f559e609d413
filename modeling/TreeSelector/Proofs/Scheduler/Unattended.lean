import TreeSelector.Proofs.Engine.Ledger
import TreeSelector.Proofs.Engine.Rechecks
import TreeSelector.Scheduler.World

/-!
# A worker left to itself

Nobody notifies the worker, no command, timer or report of an action reaches it, and the
host answers all questions as before.  What the worker does then is up to its passes: each
pass that asks for what is in front to be looked up again is followed by a lookup, which
confirms what is known, and by another pass.  So the worker comes to rest exactly if some
pass does not ask.
-/

namespace TreeSelector

namespace IdentityTracker

variable {tracker tracker' : IdentityTracker} {identity : Identity} {now now' : Time}

/-- What a poll leaves current is what it tells, or what is known of its activity. -/
theorem current_confirm {appId : String} {activityId : Option String}
    (derived : (tracker.confirm appId activityId now).2.current = some identity) :
    identity.appId = appId ∧ activityId.or identity.activityId = identity.activityId := by
  have known : identity.appId = appId ∧
      identity.activityId = tracker.knownActivity appId activityId := by
    simp only [confirm] at derived
    split at derived
    · rename_i here
      have current : tracker.current = some identity := derived
      simpa [isAt, current, Identity.isAt] using here
    · rw [← Option.some.inj derived]
      exact ⟨rfl, rfl⟩
  refine ⟨known.1, ?_⟩
  cases activityId with
  | none => rfl
  | some activityId => rw [known.2]; rfl

/-- The same answer again is no news. -/
theorem confirm_again {appId : String} {activityId : Option String}
    (derived : (tracker.confirm appId activityId now).2.current = some identity)
    (known : tracker'.current = some identity) :
    (tracker'.confirm appId activityId now').2.current = some identity := by
  obtain ⟨app, activity⟩ := current_confirm derived
  have here : tracker'.knownActivity appId activityId = identity.activityId := by
    simp only [knownActivity, known, app, if_true]
    exact activity
  simp [confirm, isAt, here, known, app, Identity.isAt]

theorem observe_again {appId : String}
    (derived : (tracker.observe appId now).2.current = some identity)
    (known : tracker'.current = some identity) :
    (tracker'.observe appId now').2.current = some identity := by
  have same : identity.appId = appId := by
    simp only [observe] at derived
    split at derived
    · rename_i here
      rw [derived] at here
      simpa using here
    · rw [← Option.some.inj derived]
  simp [observe, known, same]

end IdentityTracker

namespace Worker

/-- Looking up the same again changes nothing about what is in front. -/
theorem learnFront_again {worker worker' : Worker} {departure departure' : Departure}
    {answer : Option Identity} {identity : Identity}
    (derived : (worker.learnFront departure answer).tracker.current = some identity)
    (known : worker'.tracker.current = some identity)
    (same : departure'.appId = departure.appId) :
    (worker'.learnFront departure' answer).tracker.current = some identity := by
  simp only [learnFront, same] at derived ⊢
  cases answer with
  | some top => exact IdentityTracker.confirm_again derived known
  | none =>
      cases appId : departure.appId with
      | some appId' =>
          simp only [appId] at derived ⊢
          exact IdentityTracker.observe_again derived known
      | none => exact known

theorem foldl_noteEffect (worker : Worker) (effects : List Effect) :
    effects.foldl noteEffect worker =
      if effects.any Effect.isMismatch then
        { worker with
          forceLookup := true
          appIds := worker.appIds.forget
          pending := worker.pending.or (some .identityMismatch) }
      else worker := by
  induction effects generalizing worker with
  | nil => rfl
  | cons effect effects hypothesis =>
      rw [List.foldl_cons, hypothesis, List.any_cons]
      cases effect with
      | identityMismatch expected found =>
          simp only [noteEffect, Effect.isMismatch, Bool.true_or, if_true, request]
          split
          · cases worker.pending <;> rfl
          · rfl
      | _ => rfl

/-- A worker knows and is asked what it was before. -/
structure Keeps (before after : Worker) : Prop where
  timing : after.timing = before.timing
  tracker : after.tracker = before.tracker
  queue : after.queue = before.queue
  pending : after.pending = before.pending
  deferred : after.deferred = before.deferred

theorem Keeps.trans {first second third : Worker} (front : first.Keeps second)
    (back : second.Keeps third) : first.Keeps third where
  timing := back.timing.trans front.timing
  tracker := back.tracker.trans front.tracker
  queue := back.queue.trans front.queue
  pending := back.pending.trans front.pending
  deferred := back.deferred.trans front.deferred

theorem noteGeneration_keeps (worker : Worker) (generation : Nat) :
    worker.Keeps (worker.noteGeneration generation) := by
  simp only [noteGeneration]
  split <;> constructor <;> rfl

theorem noteFrontApp_keeps (worker : Worker) (appId : String) (now : Time) :
    worker.Keeps (worker.noteFrontApp appId now) := by
  simp only [noteFrontApp]
  split <;> constructor <;> rfl

/-- What is put off can be left out if there is nothing. -/
theorem applyDeferred_of_nil {worker : Worker} (undeferred : worker.deferred = [])
    (stage : Stage) (now : Time) :
    { worker with stage }.applyDeferred now = { worker with stage } := by
  simp only [applyDeferred, undeferred, List.foldl_nil]

/-- What the end of a pass leaves of a worker that was asked for nothing. -/
structure Rests (before after : Worker) (engine : Engine) (asks : Bool) : Prop where
  stage : after.stage = .idle engine
  timing : after.timing = before.timing
  tracker : after.tracker = before.tracker
  queue : after.queue = before.queue
  deferred : after.deferred = []
  pending : after.pending = if asks then some .identityMismatch else none
  forced : asks = true → after.forceLookup = true
  forgotten : asks = true → after.appIds.answer = none

theorem passFinished_rests {worker : Worker} (undeferred : worker.deferred = [])
    (unasked : worker.pending = none) (engine : Engine) (report : PassReport)
    (effects : List Effect) (now : Time) :
    worker.Rests (worker.passFinished engine report effects now) engine
      (effects.any Effect.isMismatch) := by
  have keeps := (worker.noteGeneration_keeps engine.generation).trans
    (noteFrontApp_keeps _ report.identity.appId now)
  rw [passFinished]
  generalize (worker.noteGeneration engine.generation).noteFrontApp report.identity.appId now =
    noted at keeps
  rw [applyDeferred_of_nil (keeps.deferred.trans undeferred), foldl_noteEffect]
  have undeferred' := keeps.deferred.trans undeferred
  have unasked' := keeps.pending.trans unasked
  cases effects.any Effect.isMismatch with
  | true =>
      constructor
      · rfl
      · exact keeps.timing
      · exact keeps.tracker
      · exact keeps.queue
      · exact undeferred'
      · simp [unasked']
      · exact fun _ => rfl
      · exact fun _ => rfl
  | false =>
      constructor
      · rfl
      · exact keeps.timing
      · exact keeps.tracker
      · exact keeps.queue
      · exact undeferred'
      · exact unasked'
      · exact nofun
      · exact nofun

theorem passFailed_rests {worker : Worker} (undeferred : worker.deferred = [])
    (unasked : worker.pending = none) (now : Time) :
    worker.Rests (worker.passFailed now) (.start worker.config worker.timing now) false := by
  rw [passFailed, applyDeferred_of_nil undeferred]
  constructor
  · rfl
  · rfl
  · rfl
  · rfl
  · exact undeferred
  · exact unasked
  · exact nofun
  · exact nofun

/-- A worker that rests and was asked for nothing goes on resting. -/
theorem Rests.stays {before after : Worker} {engine : Engine}
    (rests : before.Rests after engine false) (front : Foreground) (now : Time) :
    (after.proceed front now).stage = .idle engine := by
  have unasked : after.pending = none := rests.pending
  simp only [proceed, rests.stage, unasked]

/-- A worker that has to look up what is in front does so with the cheap answer at hand. -/
theorem Rests.looksUp {before after : Worker} {engine : Engine}
    (rests : before.Rests after engine true) (unnotified : before.queue.waiting = [])
    (front : Foreground) (now : Time) :
    let departing := after.proceed front now
    departing.stage = .lookingUp engine ⟨.identityMismatch, none, front.activeApp, now⟩ ∧
      departing.timing = before.timing ∧ departing.tracker = before.tracker ∧
      departing.queue.waiting = [] ∧ departing.pending = none ∧ departing.deferred = [] := by
  intro departing
  have asked : after.pending = some .identityMismatch := rests.pending
  have none : after.queue.leave.waiting = [] := by
    rw [rests.queue]
    exact unnotified
  have forced := rests.forced rfl
  have forgotten := rests.forgotten rfl
  have batch : (after.queue.leave.drain).1 = Option.none := by
    simp only [NotificationQueue.drain, none]
    rfl
  simp only [departing, proceed, rests.stage, asked, depart, batch, noteActivity,
    Option.bind_none, cheapAppId, AppIdMemory.consult, forgotten, mustLookUp, forced,
    Bool.true_or, if_true, true_and]
  exact ⟨rests.timing, rests.tracker, rfl, rests.deferred⟩

end Worker

namespace World

/-- What happens next if nothing but the worker goes on: its lookup or its pass ends, or the
clock moves on to the end of the lookup. -/
def unattended? (world : World) : Option World :=
  world.finishLookup?.or <| world.finishPass?.or <|
    world.lookup.map fun (due, _) => { world with now := due }

/-- That is what happens in a world without messages, timers and actions. -/
theorem unattended?_eq {world : World} (timers : world.timers = [])
    (acting : world.acting = none) (requests : world.requests = [])
    (messages : world.takeMessage? = none) :
    world.unattended? =
      world.step?.or (world.lookup.map fun (due, _) => { world with now := due }) := by
  simp [unattended?, step?, finishAction?, fireTimer?, takeDue?, startAction?, timers, acting,
    requests, messages, Option.or_assoc]

/-- What becomes of a world in which nothing but the worker goes on. -/
def unattended (world : World) : (steps : Nat) → World
  | 0 => world
  | steps + 1 =>
      match world.unattended? with
      | some next => next.unattended steps
      | none => world

def IsIdle (world : World) : Prop := ∃ engine, world.worker.stage = .idle engine

/-- How long it takes to look up what is in front, and what comes of it. -/
def frontAnswer (world : World) : Nat × Option Identity :=
  let delay := world.host.front.topDelay
  let timeout := world.worker.timing.identityTimeout.toNat
  if delay ≤ timeout then (delay, world.host.front.top.head?.join) else (timeout, none)

/-- The tree and the answers of the host do not change, and nothing is asked of the worker. -/
structure IsSteady (world : World) (host : Host) (lapse : Nat) : Prop where
  tree : world.trees.lookup world.host.front.tree = some host
  constant : world.host.front.top.length ≤ 1
  lapse : world.frontAnswer.1 = lapse
  gate : world.gate = none
  unasked : world.worker.pending = none
  undeferred : world.worker.deferred = []
  unnotified : world.worker.queue.waiting = []

/-- The worker looks up what is in front for a pass, after an earlier one found a node of
another application. -/
structure Awaits (world : World) (host : Host) (lapse : Nat) (recheck : Recheck) : Prop where
  steady : world.IsSteady host lapse
  lookup : world.lookup = some (recheck.request.now, world.frontAnswer.2)
  ahead : world.now ≤ recheck.request.now
  departs : ∃ departure, world.worker.stage = .lookingUp recheck.engine departure ∧
    departure.batch = recheck.request.batch ∧ departure.trigger = recheck.request.trigger ∧
    departure.appId = world.host.front.activeApp ∧
    (world.worker.learnFront departure world.frontAnswer.2).tracker.current =
      some recheck.request.identity

/-- The pass is in flight, and looking up what is in front would be no news. -/
structure Flies (world : World) (host : Host) (lapse : Nat) (recheck : Recheck) : Prop where
  steady : world.IsSteady host lapse
  lookup : world.lookup = none
  now : world.now = recheck.request.now
  stage : world.worker.stage = .flying
    ⟨(recheck.engine.enter recheck.request).1, recheck.request,
      (recheck.engine.enter recheck.request).2, world.host.front.tree⟩
  confirmed : ∀ departure : Departure, departure.appId = world.host.front.activeApp →
    ∀ worker : Worker, worker.tracker = world.worker.tracker →
      (worker.learnFront departure world.frontAnswer.2).tracker.current =
        some recheck.request.identity

section Steps

variable {world : World} {host : Host} {lapse : Nat} {recheck : Recheck}

/-- The clock moves on to the end of the lookup. -/
theorem Awaits.waits (awaits : world.Awaits host lapse recheck)
    (early : world.now < recheck.request.now) :
    world.unattended? = some { world with now := recheck.request.now } ∧
      { world with now := recheck.request.now }.Awaits host lapse recheck := by
  obtain ⟨departure, stage, _⟩ := awaits.departs
  constructor
  · have wait : ¬ recheck.request.now ≤ world.now := Nat.not_le.mpr early
    simp [unattended?, finishLookup?, finishPass?, awaits.lookup, wait, stage]
  · have steady := awaits.steady
    exact ⟨⟨steady.tree, steady.constant, steady.lapse, steady.gate, steady.unasked,
      steady.undeferred, steady.unnotified⟩, awaits.lookup, Nat.le_refl _, awaits.departs⟩

/-- The lookup ends, and the pass starts. -/
theorem Awaits.flies (awaits : world.Awaits host lapse recheck)
    (due : recheck.request.now ≤ world.now) :
    ∃ next, world.unattended? = some next ∧ next.Flies host lapse recheck := by
  obtain ⟨departure, stage, batch, trigger, appId, derived⟩ := awaits.departs
  have now : world.now = recheck.request.now := Nat.le_antisymm awaits.ahead due
  have steady := awaits.steady
  have request : (⟨departure.batch, recheck.request.identity, departure.trigger, world.now⟩ :
      PassRequest) = recheck.request := by
    rw [batch, trigger, now]
  have launched : world.worker.answered world.frontAnswer.2 world.host.front.tree world.now =
      { world.worker.learnFront departure world.frontAnswer.2 with
        stage := .flying ⟨(recheck.engine.enter recheck.request).1, recheck.request,
          (recheck.engine.enter recheck.request).2, world.host.front.tree⟩ } := by
    simp only [Worker.answered, stage, Worker.launch, derived, request]
  refine ⟨{ world with lookup := none }.proceed
    (world.worker.answered world.frontAnswer.2 world.host.front.tree world.now), ?_, ?_⟩
  · simp only [unattended?, finishLookup?, awaits.lookup, if_pos due, Option.some_or]
  · rw [launched]
    constructor
    · exact ⟨steady.tree, steady.constant, steady.lapse, steady.gate, steady.unasked,
        steady.undeferred, steady.unnotified⟩
    · rfl
    · exact now
    · rfl
    · intro departure' same worker known
      have current : worker.tracker.current = some recheck.request.identity := by
        rw [known]
        exact derived
      exact Worker.learnFront_again derived current (same.trans appId.symm)

/-- What is asked of the host as soon as the worker looks up what is in front. -/
theorem startLookup_eq (constant : world.host.front.top.length ≤ 1) {engine : Engine}
    {departure : Departure} (stage : world.worker.stage = .lookingUp engine departure)
    (unasked : world.lookup = none) :
    world.startLookup = { world with
      lookup := some (world.now + world.frontAnswer.1, world.frontAnswer.2) } := by
  have asked : world.askTop = (world.host.front.top.head?.join, world) := by
    cases top : world.host.front.top with
    | nil => simp [askTop, top]
    | cons answer others =>
        rw [top, List.length_cons] at constant
        obtain rfl : others = [] := List.eq_nil_of_length_eq_zero (by omega)
        simp [askTop, top]
  simp only [startLookup, stage, unasked, asked, frontAnswer]
  split <;> rfl

theorem awaits_startLookup (steady : world.IsSteady host lapse) (unasked : world.lookup = none)
    (ahead : world.now + lapse = recheck.request.now) {departure : Departure}
    (stage : world.worker.stage = .lookingUp recheck.engine departure)
    (batch : departure.batch = recheck.request.batch)
    (trigger : departure.trigger = recheck.request.trigger)
    (appId : departure.appId = world.host.front.activeApp)
    (derived : (world.worker.learnFront departure world.frontAnswer.2).tracker.current =
      some recheck.request.identity) :
    world.startLookup.Awaits host lapse recheck := by
  rw [startLookup_eq steady.constant stage unasked]
  constructor
  · exact ⟨steady.tree, steady.constant, steady.lapse, steady.gate, steady.unasked,
      steady.undeferred, steady.unnotified⟩
  · rw [← ahead, ← steady.lapse]
    rfl
  · rw [← ahead]
    exact Nat.le_add_right _ _
  · exact ⟨departure, stage, batch, trigger, appId, derived⟩

/-- A worker that was asked for nothing more is idle. -/
theorem isIdle_of_rests {before after : Worker} {engine : Engine}
    (rests : before.Rests after engine false) (world : World) :
    (world.proceed after).IsIdle := by
  have stage := rests.stays world.host.front world.now
  refine ⟨engine, ?_⟩
  simp only [proceed, startLookup, stage]

/-- A worker that was asked to look again goes on to look up what is in front. -/
theorem Flies.awaits (flies : world.Flies host lapse recheck) {after : Worker}
    (rests : world.worker.Rests after (recheck.outcome host).1 true) (worker : Worker)
    (events : List (Time × SchedulerEvent)) (timers : List Timer)
    (requests : List ActionRequest) :
    ({ world with worker, events, timers, requests }.proceed after).Awaits host lapse
      (recheck.next host lapse) := by
  have steady := flies.steady
  obtain ⟨stage, timing, tracker, unnotified, unasked, undeferred⟩ :=
    rests.looksUp steady.unnotified world.host.front world.now
  have answer : ({ world with
      worker := after.proceed world.host.front world.now, events, timers, requests } :
        World).frontAnswer = world.frontAnswer := by
    simp only [frontAnswer, timing]
  refine awaits_startLookup ⟨steady.tree, steady.constant, ?_, steady.gate, unasked, undeferred,
    unnotified⟩ flies.lookup ?_ stage rfl rfl rfl ?_
  · exact (congrArg (·.1) answer).trans steady.lapse
  · exact congrArg (· + lapse) flies.now
  · rw [answer]
    exact flies.confirmed _ rfl _ tracker

/-- The pass is over. -/
theorem Flies.lands (flies : world.Flies host lapse recheck) :
    ∃ next, world.unattended? = some next ∧
      if recheck.asksAgain host then next.Awaits host lapse (recheck.next host lapse)
      else next.IsIdle := by
  have steady := flies.steady
  have passes : ∀ flight, world.passGate? flight = some world := by
    intro flight
    simp only [passGate?, steady.gate]
    split <;> rfl
  refine ⟨world.land ⟨(recheck.engine.enter recheck.request).1, recheck.request,
    (recheck.engine.enter recheck.request).2, world.host.front.tree⟩, ?_, ?_⟩
  · simp [unattended?, finishLookup?, finishPass?, flies.lookup, flies.stage, passes]
  · simp only [land, steady.tree]
    have outcome : recheck.outcome host = (StateT.run ((recheck.engine.enter
        recheck.request).1.look host recheck.request (recheck.engine.enter recheck.request).2)
          (.fresh defaultCapacity)).1 := rfl
    have broken : recheck.isBroken host = (StateT.run ((recheck.engine.enter
        recheck.request).1.look host recheck.request (recheck.engine.enter recheck.request).2)
          (.fresh defaultCapacity)).2.broken := rfl
    generalize StateT.run ((recheck.engine.enter recheck.request).1.look host recheck.request
      (recheck.engine.enter recheck.request).2) (.fresh defaultCapacity) = result
      at outcome broken ⊢
    obtain ⟨⟨engine, report, effects⟩, session⟩ := result
    simp only at broken
    simp only [Recheck.asksAgain, outcome, broken]
    cases session.broken with
    | true =>
        exact isIdle_of_rests (Worker.passFailed_rests steady.undeferred steady.unasked _) _
    | false =>
        have rests := Worker.passFinished_rests steady.undeferred steady.unasked engine report
          effects world.now
        cases mismatch : effects.any Effect.isMismatch with
        | true =>
            rw [mismatch] at rests
            exact flies.awaits (by rw [outcome]; exact rests) _ _ _ _
        | false =>
            rw [mismatch] at rests
            exact isIdle_of_rests rests _

end Steps

section Runs

variable {world : World} {host : Host} {lapse : Nat} {first : Recheck}

theorem unattended_of_some {next : World} (goesOn : world.unattended? = some next)
    (steps : Nat) : world.unattended (steps + 1) = next.unattended steps := by
  simp only [unattended, goesOn]

/-- A lookup and the pass after it lead to the next lookup or leave the worker idle. -/
theorem Awaits.lands (awaits : world.Awaits host lapse first) :
    ∃ (steps : Nat) (next : World),
      (∀ more, world.unattended (steps + more) = next.unattended more) ∧
      if first.asksAgain host then next.Awaits host lapse (first.next host lapse)
      else next.IsIdle := by
  have ready : ∀ waited : World, waited.Awaits host lapse first →
      first.request.now ≤ waited.now → ∃ next : World,
        (∀ more, waited.unattended (more + 2) = next.unattended more) ∧
          if first.asksAgain host then next.Awaits host lapse (first.next host lapse)
          else next.IsIdle := by
    intro waited awaits due
    obtain ⟨flying, departs, flies⟩ := awaits.flies due
    obtain ⟨next, arrives, outcome⟩ := flies.lands
    refine ⟨next, ?_, outcome⟩
    intro more
    rw [unattended_of_some departs, unattended_of_some arrives]
  rcases Nat.lt_or_ge world.now first.request.now with early | due
  · obtain ⟨moves, awaits'⟩ := awaits.waits early
    obtain ⟨next, reaches, outcome⟩ := ready _ awaits' (Nat.le_refl _)
    refine ⟨3, next, ?_, outcome⟩
    intro more
    rw [Nat.add_comm, unattended_of_some moves, reaches]
  · obtain ⟨next, reaches, outcome⟩ := ready world awaits due
    refine ⟨2, next, ?_, outcome⟩
    intro more
    rw [Nat.add_comm, reaches]

/-- The worker comes to rest with the first pass that does not ask to look again. -/
theorem Awaits.exists_isIdle (awaits : world.Awaits host lapse first) {count : Nat}
    (quiet : ((Recheck.next host lapse)^[count] first).asksAgain host = false) :
    ∃ steps, (world.unattended steps).IsIdle := by
  induction count generalizing world first with
  | zero =>
      obtain ⟨steps, next, reaches, outcome⟩ := awaits.lands
      rw [Function.iterate_zero, id_eq] at quiet
      rw [if_neg (by simp [quiet])] at outcome
      exact ⟨steps, (reaches 0).symm ▸ outcome⟩
  | succ count hypothesis =>
      obtain ⟨steps, next, reaches, outcome⟩ := awaits.lands
      split at outcome
      · rw [Function.iterate_succ_apply] at quiet
        obtain ⟨more, idle⟩ := hypothesis outcome quiet
        exact ⟨steps + more, (reaches more).symm ▸ idle⟩
      · exact ⟨steps, (reaches 0).symm ▸ outcome⟩

/-- As long as all passes ask to look again, the worker is looking up or flying. -/
theorem not_isIdle_of_always
    (always : ∀ count, ((Recheck.next host lapse)^[count] first).asksAgain host = true)
    (busy : world.Awaits host lapse first ∨ world.Flies host lapse first) (steps : Nat) :
    ¬ (world.unattended steps).IsIdle := by
  induction steps generalizing world first with
  | zero =>
      rintro ⟨engine, idle⟩
      rw [unattended] at idle
      rcases busy with awaits | flies
      · obtain ⟨departure, stage, _⟩ := awaits.departs
        rw [stage] at idle
        cases idle
      · rw [flies.stage] at idle
        cases idle
  | succ steps hypothesis =>
      rcases busy with awaits | flies
      · rcases Nat.lt_or_ge world.now first.request.now with early | due
        · obtain ⟨moves, awaits'⟩ := awaits.waits early
          rw [unattended_of_some moves]
          exact hypothesis always (.inl awaits')
        · obtain ⟨next, departs, flies⟩ := awaits.flies due
          rw [unattended_of_some departs]
          exact hypothesis always (.inr flies)
      · obtain ⟨next, arrives, outcome⟩ := flies.lands
        have asks : first.asksAgain host = true := always 0
        rw [if_pos asks] at outcome
        rw [unattended_of_some arrives]
        apply hypothesis _ (.inl outcome)
        intro count
        rw [← Function.iterate_succ_apply]
        exact always (count + 1)

/-- A worker that is left to itself after a pass found a node of another application goes
idle exactly if one of the passes that follow finds none or comes to grief.  Where lookups
take no time, the first passes decide. -/
theorem goes_idle_iff (awaits : world.Awaits host lapse first) :
    ((∃ steps, (world.unattended steps).IsIdle) ↔
      ∃ count, ((Recheck.next host lapse)^[count] first).asksAgain host = false) ∧
    (lapse = 0 → ((∃ steps, (world.unattended steps).IsIdle) ↔
      ∃ count ≤ 2 * first.engine.rules.rules.length + 1,
        ((Recheck.next host 0)^[count] first).asksAgain host = false)) := by
  have idle : (∃ steps, (world.unattended steps).IsIdle) ↔
      ∃ count, ((Recheck.next host lapse)^[count] first).asksAgain host = false := by
    constructor
    · rintro ⟨steps, idle⟩
      by_contra never
      have always : ∀ count, ((Recheck.next host lapse)^[count] first).asksAgain host = true := by
        simpa using never
      exact not_isIdle_of_always always (.inl awaits) steps idle
    · rintro ⟨count, quiet⟩
      exact awaits.exists_isIdle quiet
  refine ⟨idle, ?_⟩
  rintro rfl
  rw [idle]
  constructor
  · intro quiet
    by_contra never
    have early : ∀ count ≤ 2 * first.engine.rules.rules.length + 1,
        ((Recheck.next host 0)^[count] first).asksAgain host = true := by
      simpa using never
    obtain ⟨count, quiet⟩ := quiet
    rw [(Recheck.asksAgain_forever_iff host first).mpr early count] at quiet
    cases quiet
  · rintro ⟨count, _, quiet⟩
    exact ⟨count, quiet⟩

end Runs

section Overlaid

open Ledger (skipConfig)

/-- The tree of an application that is not in front, with a button. -/
def overlay : Host :=
  .serving (.node { appId := some "b" } [.node { text := some "Skip" } []]) [] true

def overlayChange : Notification := { kind := .content, appId := "b", time := 0 }

/-- The worker is notified of the overlay and looks up what is in front. -/
def overlaid : World :=
  let world := World.start skipConfig {} 1
    { front := { tree := "t", activeApp := some "a", top := [some ⟨"a", some "a.A", 0⟩] } }
    [("t", overlay)]
  (world.submit overlayChange).2.proceed (world.submit overlayChange).2.worker.notified

def overlaidPass : Recheck :=
  ⟨.start skipConfig {} 0,
    ⟨Batch.ofNotifications? [overlayChange], ⟨"a", some "a.A", 0⟩, .notification, 0⟩⟩

theorem overlaid_awaits : overlaid.Awaits overlay 0 overlaidPass := by
  constructor
  · constructor
    · rfl
    · decide +kernel
    · decide +kernel
    · rfl
    · rfl
    · rfl
    · rfl
  · decide +kernel
  · decide +kernel
  · refine ⟨⟨.notification, Batch.ofNotifications? [overlayChange], some "a", 0⟩, ?_, rfl, rfl,
      rfl, ?_⟩
    · rfl
    · decide +kernel

/-- The first passes over the overlay all ask to look again. -/
theorem overlaid_asks : ∀ count ≤ 2 * overlaidPass.engine.rules.rules.length + 1,
    ((Recheck.next overlay 0)^[count] overlaidPass).asksAgain overlay = true := by
  decide +kernel

/-- Under the overlay the worker never goes idle. -/
theorem overlaid_never_idle : ¬ ∃ steps, (overlaid.unattended steps).IsIdle := by
  intro idle
  obtain ⟨count, small, quiet⟩ := ((goes_idle_iff overlaid_awaits).2 rfl).mp idle
  rw [overlaid_asks count small] at quiet
  cases quiet

/-- A worker that is left to itself may run passes forever. -/
theorem may_never_go_idle :
    ¬ ∀ (world : World) (host : Host) (lapse : Nat) (first : Recheck),
      world.Awaits host lapse first → ∃ steps, (world.unattended steps).IsIdle := by
  intro always
  obtain ⟨steps, idle⟩ := always overlaid overlay 0 overlaidPass overlaid_awaits
  have forever := (Recheck.asksAgain_forever_iff overlay overlaidPass).mpr overlaid_asks
  exact not_isIdle_of_always forever (.inl overlaid_awaits) steps idle

end Overlaid

end World

end TreeSelector

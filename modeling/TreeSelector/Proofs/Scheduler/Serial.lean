import TreeSelector.Proofs.Scheduler.Turns
import TreeSelector.Proofs.Scheduler.Unattended

/-!
# One turn after the other

The worker lends its engine to one pass at a time.  What it is told meanwhile waits until
the pass is over, and is done directly after it.  So its engine is what a service makes of
the turns that its history falls into.
-/

namespace TreeSelector

namespace Worker

/-- A worker has the engine, or lends it, as before. -/
structure KeepsStage (before after : Worker) : Prop where
  config : after.config = before.config
  timing : after.timing = before.timing
  stage : after.stage = before.stage
  deferred : after.deferred = before.deferred

/-- The worker holds the engine of a service, and nothing was put off. -/
structure Holds (worker : Worker) (timing : Timing) (service : Service) : Prop where
  config : worker.config = service.config
  timing : worker.timing = timing
  engine : worker.stage.heldEngine? = some service.engine
  deferred : worker.deferred = []

/-- The engine of a service is lent to a pass, and some things were put off. -/
structure Lends (worker : Worker) (timing : Timing) (service : Service) (request : PassRequest)
    (items : List Deferred) : Prop where
  config : worker.config = service.config
  timing : worker.timing = timing
  flight : ∃ tree, worker.stage = .flying
    ⟨(service.engine.enter request).1, request, (service.engine.enter request).2, tree⟩
  deferred : worker.deferred = items

/-- A worker that goes on holds its engine or lends it to a pass that has just started. -/
def GoesOn (worker : Worker) (timing : Timing) (service : Service) : Prop :=
  worker.Holds timing service ∨ ∃ request, worker.Lends timing service request []

/-- What happened to a worker falls into turns of its service, with one more that has not
come to its end if a pass is in flight. -/
inductive TakesTurns (timing : Timing) (origin : Service) : Worker → List Occurrence → Prop where
  | holds {worker : Worker} (turns : List Turn)
      (holds : worker.Holds timing (origin.takeAll timing turns)) :
      TakesTurns timing origin worker (turns.flatMap Turn.occurrences)
  | lends {worker : Worker} (turns : List Turn) (request : PassRequest)
      (meanwhile : List (Deferred × Time))
      (lends : worker.Lends timing (origin.takeAll timing turns) request
        (meanwhile.map (·.1))) :
      TakesTurns timing origin worker
        (turns.flatMap Turn.occurrences ++ .departed request :: meanwhile.map .ofTold)

section Keeping

variable {before after worker : Worker} {timing : Timing} {service : Service}
  {request : PassRequest} {items : List Deferred}

theorem KeepsStage.trans {first second third : Worker} (front : first.KeepsStage second)
    (back : second.KeepsStage third) : first.KeepsStage third where
  config := back.config.trans front.config
  timing := back.timing.trans front.timing
  stage := back.stage.trans front.stage
  deferred := back.deferred.trans front.deferred

theorem Holds.keep (holds : before.Holds timing service) (keeps : before.KeepsStage after) :
    after.Holds timing service where
  config := keeps.config.trans holds.config
  timing := keeps.timing.trans holds.timing
  engine := by rw [keeps.stage, holds.engine]
  deferred := keeps.deferred.trans holds.deferred

theorem Lends.keep (lends : before.Lends timing service request items)
    (keeps : before.KeepsStage after) : after.Lends timing service request items where
  config := keeps.config.trans lends.config
  timing := keeps.timing.trans lends.timing
  flight := by rw [keeps.stage]; exact lends.flight
  deferred := keeps.deferred.trans lends.deferred

theorem Lends.heldEngine? (lends : worker.Lends timing service request items) :
    worker.stage.heldEngine? = none := by
  obtain ⟨tree, flying⟩ := lends.flight
  rw [flying]
  rfl

theorem Holds.engine_eq (holds : worker.Holds timing service) {engine : Engine}
    (held : worker.stage.heldEngine? = some engine) : engine = service.engine :=
  Option.some.inj (held.symm.trans holds.engine)

theorem Holds.not_flying (holds : worker.Holds timing service) (flight : Flight) :
    worker.stage ≠ .flying flight := by
  intro flying
  have held := holds.engine
  rw [flying] at held
  cases held

theorem submit_keepsStage (worker : Worker) (notification : Notification) :
    worker.KeepsStage (worker.submit notification).2 := ⟨rfl, rfl, rfl, rfl⟩

theorem listen_keepsStage (worker : Worker) : worker.KeepsStage worker.listen := by
  simp only [listen]
  split <;> constructor <;> rfl

theorem noteActivity_keepsStage (worker : Worker) (front : Foreground) (batch : Option Batch)
    (now : Time) : worker.KeepsStage (worker.noteActivity front batch now) := by
  simp only [noteActivity]
  split
  · constructor <;> rfl
  · split <;> split <;> constructor <;> rfl

theorem cheapAppId_keepsStage (worker : Worker) (front : Foreground) (now : Time) :
    worker.KeepsStage (worker.cheapAppId front now).2 := by
  simp only [cheapAppId]
  split <;> constructor <;> rfl

theorem noteGeneration_keepsStage (worker : Worker) (generation : Nat) :
    worker.KeepsStage (worker.noteGeneration generation) := by
  simp only [noteGeneration]
  split <;> constructor <;> rfl

theorem noteFrontApp_keepsStage (worker : Worker) (appId : String) (now : Time) :
    worker.KeepsStage (worker.noteFrontApp appId now) := by
  simp only [noteFrontApp]
  split <;> constructor <;> rfl

theorem noteEffects_keepsStage (worker : Worker) (effects : List Effect) :
    worker.KeepsStage (effects.foldl noteEffect worker) := by
  rw [foldl_noteEffect]
  split <;> constructor <;> rfl

end Keeping

section Receiving

variable {worker : Worker} {timing : Timing} {service : Service} {request : PassRequest}
  {items : List Deferred}

/-- A service obeys with the engine at hand. -/
theorem Holds.withEngine (holds : worker.Holds timing service) (changed : Service) :
    Holds { worker with
      config := changed.config
      stage := worker.stage.withEngine changed.engine } timing changed where
  config := rfl
  timing := holds.timing
  engine := by
    cases stage : worker.stage with
    | idle _ => rfl
    | lookingUp _ _ => rfl
    | flying flight => exact absurd stage (holds.not_flying flight)
  deferred := holds.deferred

theorem Holds.resume (holds : worker.Holds timing service) (now : Time) (item : Deferred) :
    (worker.resume now item).Holds timing (service.obey now item) := by
  have obeyed := holds.withEngine (service.obey now item)
  cases item with
  | command command =>
      simp only [Worker.resume, Worker.command, holds.engine]
      cases command with
      | configure config => exact obeyed.keep ⟨rfl, rfl, rfl, rfl⟩
      | resetRule key =>
          simp only [execute]
          split
          · exact obeyed.keep ⟨holds.config, rfl, rfl, rfl⟩
          · exact obeyed.keep ⟨holds.config, rfl, rfl, rfl⟩
  | actionFinished report =>
      simp only [Worker.resume, settleAction, holds.engine]
      exact obeyed.keep ⟨holds.config, rfl, rfl, rfl⟩

theorem Holds.resumeAll (holds : worker.Holds timing service) (now : Time)
    (items : List Deferred) :
    (items.foldl (Worker.resume now) worker).Holds timing
      (items.foldl (Service.obey now) service) := by
  induction items generalizing worker service with
  | nil => exact holds
  | cons item items hypothesis => exact hypothesis (holds.resume now item)

theorem Lends.resume (lends : worker.Lends timing service request items) (now : Time)
    (item : Deferred) :
    (worker.resume now item).Lends timing service request (items ++ [item]) := by
  have putOff : Lends { worker with deferred := worker.deferred ++ [item] } timing service
      request (items ++ [item]) :=
    ⟨lends.config, lends.timing, lends.flight, congrArg (· ++ [item]) lends.deferred⟩
  cases item with
  | command command =>
      simp only [Worker.resume, Worker.command, lends.heldEngine?]
      exact putOff
  | actionFinished report =>
      simp only [Worker.resume, settleAction, lends.heldEngine?]
      exact putOff

/-- The report of an action comes to what is done with it later, except for the throttle. -/
theorem exists_resume_of_actionFinished (worker : Worker) (report : ActionReport) (now : Time) :
    ∃ noted : Worker, worker.KeepsStage noted ∧
      worker.actionFinished report now = noted.resume now (.actionFinished report) :=
  ⟨{ worker with
      throttle := if report.succeeded then worker.throttle.triggered now else worker.throttle },
    ⟨rfl, rfl, rfl, rfl⟩, rfl⟩

theorem Holds.receive (holds : worker.Holds timing service) (now : Time) (message : Message) :
    (worker.receive now message).Holds timing
      (message.items.foldl (Service.obey now) service) := by
  cases message with
  | command command => exact holds.resume now (.command command)
  | notified => exact holds.keep ⟨rfl, rfl, rfl, rfl⟩
  | recheck trigger => exact holds.keep ⟨rfl, rfl, rfl, rfl⟩
  | report report =>
      obtain ⟨noted, keeps, same⟩ := exists_resume_of_actionFinished worker report now
      rw [Worker.receive, same]
      exact (holds.keep keeps).resume now (.actionFinished report)

theorem Lends.receive (lends : worker.Lends timing service request items) (now : Time)
    (message : Message) :
    (worker.receive now message).Lends timing service request (items ++ message.items) := by
  cases message with
  | command command => exact lends.resume now (.command command)
  | notified =>
      rw [Message.items, List.append_nil]
      exact lends.keep ⟨rfl, rfl, rfl, rfl⟩
  | recheck trigger =>
      rw [Message.items, List.append_nil]
      exact lends.keep ⟨rfl, rfl, rfl, rfl⟩
  | report report =>
      obtain ⟨noted, keeps, same⟩ := exists_resume_of_actionFinished worker report now
      rw [Worker.receive, same]
      exact (lends.keep keeps).resume now (.actionFinished report)

end Receiving

section Departing

variable {before worker : Worker} {timing : Timing} {service : Service} {request : PassRequest}
  {items : List Deferred}

theorem Holds.launch (holds : worker.Holds timing service) (departure : Departure)
    (tree : String) (now : Time) :
    (worker.launch service.engine departure tree now).GoesOn timing service := by
  simp only [Worker.launch]
  split
  · exact .inl ⟨holds.config, holds.timing, rfl, holds.deferred⟩
  · exact .inr ⟨_, holds.config, holds.timing, ⟨tree, rfl⟩, holds.deferred⟩

theorem Holds.depart (holds : worker.Holds timing service) (front : Foreground)
    (trigger : PassTrigger) (now : Time) :
    (worker.depart service.engine front trigger now).GoesOn timing service := by
  have prepared := (noteActivity_keepsStage { worker with queue := worker.queue.drain.2 } front
    worker.queue.drain.1 now).trans (cheapAppId_keepsStage _ front now)
  have ready := (holds.keep ⟨rfl, rfl, rfl, rfl⟩ :
    Holds { worker with queue := worker.queue.drain.2 } timing service).keep prepared
  simp only [Worker.depart]
  split
  · exact .inl ⟨ready.config, ready.timing, rfl, ready.deferred⟩
  · exact ready.launch _ _ _

theorem Holds.proceed (holds : worker.Holds timing service) (front : Foreground) (now : Time) :
    (worker.proceed front now).GoesOn timing service := by
  simp only [Worker.proceed]
  split
  · rename_i engine trigger stage asked
    have same : engine = service.engine := holds.engine_eq (by rw [stage]; rfl)
    have ready : Holds { worker with queue := worker.queue.leave, pending := none } timing
        service := holds.keep ⟨rfl, rfl, rfl, rfl⟩
    rw [same]
    exact ready.depart front trigger now
  · exact .inl (holds.keep ⟨rfl, rfl, rfl, rfl⟩)

theorem Lends.proceed (lends : worker.Lends timing service request items) (front : Foreground)
    (now : Time) : (worker.proceed front now).Lends timing service request items := by
  obtain ⟨tree, flying⟩ := lends.flight
  simp only [Worker.proceed, flying]
  exact lends.keep ⟨rfl, rfl, flying.symm, rfl⟩

theorem GoesOn.proceed (on : worker.GoesOn timing service) (front : Foreground) (now : Time) :
    (worker.proceed front now).GoesOn timing service := by
  rcases on with holds | ⟨request, lends⟩
  · exact holds.proceed front now
  · exact .inr ⟨request, lends.proceed front now⟩

theorem Holds.answered (holds : worker.Holds timing service) (answer : Option Identity)
    (tree : String) (now : Time) :
    (worker.answered answer tree now).GoesOn timing service := by
  simp only [Worker.answered]
  split
  · rename_i engine departure stage
    have same : engine = service.engine := holds.engine_eq (by rw [stage]; rfl)
    have ready : (worker.learnFront departure answer).Holds timing service :=
      holds.keep ⟨rfl, rfl, rfl, rfl⟩
    rw [same]
    exact ready.launch departure tree now
  · exact .inl holds

theorem Lends.answered (lends : worker.Lends timing service request items)
    (answer : Option Identity) (tree : String) (now : Time) :
    worker.answered answer tree now = worker := by
  obtain ⟨tree', flying⟩ := lends.flight
  simp only [Worker.answered, flying]

theorem Lends.departures_eq_nil (lends : before.Lends timing service request items)
    (after : Worker) : before.departures after = [] := by
  simp only [departures, lends.heldEngine?]

theorem Holds.departures_of_holds {service' : Service} (holds : before.Holds timing service)
    (holds' : worker.Holds timing service') : before.departures worker = [] := by
  cases stage : worker.stage with
  | idle _ => simp only [departures, holds.engine, stage]
  | lookingUp _ _ => simp only [departures, holds.engine, stage]
  | flying flight => exact absurd stage (holds'.not_flying flight)

theorem Holds.departures_of_lends {service' : Service} (holds : before.Holds timing service)
    (lends : worker.Lends timing service' request items) :
    before.departures worker = [.departed request] := by
  obtain ⟨tree, flying⟩ := lends.flight
  simp only [departures, holds.engine, flying]

end Departing

section Ending

variable {worker : Worker} {timing : Timing} {service : Service} {request : PassRequest}
  {items : List Deferred}

/-- What was put off is done directly after the pass, in order. -/
theorem Lends.applyDeferred (lends : worker.Lends timing service request items)
    (changed : Service) (config : changed.config = service.config) (now : Time) :
    ({ worker with stage := .idle changed.engine }.applyDeferred now).Holds timing
      (items.foldl (Service.obey now) changed) := by
  have back : Holds { worker with stage := .idle changed.engine, deferred := [] } timing
      changed :=
    ⟨lends.config.trans config.symm, lends.timing, rfl, rfl⟩
  rw [← lends.deferred]
  exact back.resumeAll now worker.deferred

theorem Lends.finish (lends : worker.Lends timing service request items) {flight : Flight}
    (flying : worker.stage = .flying flight) (ending : Ending) (now : Time) :
    (worker.finish flight now ending).Holds timing
      (items.foldl (Service.obey now) (service.conclude timing request now ending)) := by
  obtain ⟨tree, same⟩ := lends.flight
  rw [flying] at same
  cases ending with
  | landed host session =>
      -- the pass entered when it started, so looking at the tree completes it
      let outcome := (flight.engine.look host flight.request flight.begun).answer session
      have noted := (noteGeneration_keepsStage worker outcome.1.generation).trans
        (noteFrontApp_keepsStage _ outcome.2.1.identity.appId now)
      have caught := (lends.keep noted).applyDeferred
        (service.conclude timing request now (.landed host session)) rfl now
      cases same
      exact caught.keep (noteEffects_keepsStage _ outcome.2.2)
  | failed =>
      have rebuilt : Engine.start worker.config worker.timing now =
          (service.conclude timing request now .failed).engine := by
        rw [lends.config, lends.timing]
        rfl
      rw [Worker.finish, passFailed, rebuilt]
      exact lends.applyDeferred (service.conclude timing request now .failed) rfl now

end Ending

section Turns

variable {worker after : Worker} {timing : Timing} {origin : Service}
  {history occurrences : List Occurrence}

theorem TakesTurns.keep (taken : TakesTurns timing origin worker history)
    (keeps : worker.KeepsStage after) : TakesTurns timing origin after history := by
  cases taken with
  | holds turns holds => exact .holds turns (holds.keep keeps)
  | lends turns request meanwhile lends => exact .lends turns request meanwhile (lends.keep keeps)

/-- A pass that has just started is the beginning of a turn. -/
theorem TakesTurns.goOn {turns : List Turn}
    (holds : worker.Holds timing (origin.takeAll timing turns))
    (on : after.GoesOn timing (origin.takeAll timing turns)) :
    TakesTurns timing origin after
      (turns.flatMap Turn.occurrences ++ worker.departures after) := by
  rcases on with held | ⟨request, lends⟩
  · rw [holds.departures_of_holds held, List.append_nil]
    exact .holds turns held
  · rw [holds.departures_of_lends lends]
    exact .lends turns request [] lends

theorem TakesTurns.proceed (taken : TakesTurns timing origin worker history)
    (front : Foreground) (now : Time) :
    TakesTurns timing origin (worker.proceed front now)
      (history ++ worker.departures (worker.proceed front now)) := by
  cases taken with
  | holds turns holds => exact .goOn holds (holds.proceed front now)
  | lends turns request meanwhile lends =>
      rw [lends.departures_eq_nil, List.append_nil]
      exact .lends turns request meanwhile (lends.proceed front now)

/-- What a worker is told is a turn, or it belongs to the turn of the pass in flight. -/
theorem TakesTurns.receive (taken : TakesTurns timing origin worker history) (now : Time)
    (message : Message) :
    TakesTurns timing origin (worker.receive now message)
      (history ++ message.items.map (.received · now)) := by
  -- there is one turn more, or one thing more to be done after the pass, for each item
  cases taken with
  | holds turns holds =>
      have told : origin.takeAll timing (turns ++ message.items.map (.told · now)) =
          message.items.foldl (Service.obey now) (origin.takeAll timing turns) := by
        rw [Service.takeAll, List.foldl_append, List.foldl_map]
        rfl
      have received := TakesTurns.holds (turns ++ message.items.map (.told · now))
        (told ▸ holds.receive now message)
      rw [List.flatMap_append, List.flatMap_map] at received
      rw [← List.flatMap_singleton' (message.items.map _), List.flatMap_map]
      exact received
  | lends turns request meanwhile lends =>
      have items : meanwhile.map (·.1) ++ message.items =
          (meanwhile ++ message.items.map (·, now)).map (·.1) := by
        rw [List.map_append, List.map_map]
        exact congrArg _ (List.map_id' message.items).symm
      have received := TakesTurns.lends turns request (meanwhile ++ message.items.map (·, now))
        (items ▸ lends.receive now message)
      rw [List.map_append, List.map_map] at received
      rw [List.append_assoc, List.cons_append]
      exact received

/-- The end of a pass completes its turn. -/
theorem TakesTurns.finish (taken : TakesTurns timing origin worker history) {flight : Flight}
    (flying : worker.stage = .flying flight) (ending : Ending) (now : Time) :
    TakesTurns timing origin (worker.finish flight now ending)
      (history ++ [.ended ending now]) := by
  cases taken with
  | holds turns holds => exact absurd flying (holds.not_flying flight)
  | lends turns request meanwhile lends =>
      have flown : origin.takeAll timing (turns ++ [.flown request meanwhile ending now]) =
          (meanwhile.map (·.1)).foldl (Service.obey now)
            ((origin.takeAll timing turns).conclude timing request now ending) := by
        rw [Service.takeAll, List.foldl_append]
        rfl
      have finished := TakesTurns.holds (turns ++ [.flown request meanwhile ending now])
        (flown ▸ lends.finish flying ending now)
      rw [List.flatMap_append, List.flatMap_singleton] at finished
      rw [List.append_assoc]
      exact finished

theorem TakesTurns.step (taken : TakesTurns timing origin worker history)
    (step : worker.Step occurrences after) :
    TakesTurns timing origin after (history ++ occurrences) := by
  cases step with
  | submit notification =>
      rw [List.append_nil]
      exact taken.keep (worker.submit_keepsStage notification)
  | listen =>
      rw [List.append_nil]
      exact taken.keep worker.listen_keepsStage
  | receive awake front now message =>
      rw [← List.append_assoc]
      exact (taken.receive now message).proceed front now
  | answer answer front now =>
      cases taken with
      | holds turns holds =>
          exact .goOn holds ((holds.answered answer front.tree now).proceed front now)
      | lends turns request meanwhile lends =>
          rw [lends.answered]
          exact (TakesTurns.lends turns request meanwhile lends).proceed front now
  | finish flying ending front now =>
      rw [← List.singleton_append, ← List.append_assoc]
      exact (taken.finish flying ending now).proceed front now

theorem Reached.takesTurns {config : EngineConfig} {activities : ActivityTable} {began : Time}
    (reached : Reached config timing activities began worker history) :
    TakesTurns timing (.start config timing began) worker history := by
  induction reached with
  | start => exact .holds [] ⟨rfl, rfl, rfl, rfl⟩
  | step earlier step hypothesis => exact hypothesis.step step

end Turns

section Requests

variable {worker after : Worker} {occurrences : List Occurrence}

theorem isLookingUp_withEngine (stage : Stage) (engine : Engine) :
    (stage.withEngine engine).isLookingUp = stage.isLookingUp := by
  cases stage <;> rfl

theorem isLookingUp_resume (worker : Worker) (now : Time) (item : Deferred) :
    (worker.resume now item).stage.isLookingUp = worker.stage.isLookingUp := by
  cases item with
  | command command =>
      simp only [resume, Worker.command]
      split
      · cases command with
        | configure config => exact isLookingUp_withEngine _ _
        | resetRule key =>
            simp only [execute]
            split <;> exact isLookingUp_withEngine _ _
      · rfl
  | actionFinished report =>
      simp only [resume, settleAction]
      split
      · exact isLookingUp_withEngine _ _
      · rfl

theorem isLookingUp_resumeAll (worker : Worker) (now : Time) (items : List Deferred) :
    (items.foldl (resume now) worker).stage.isLookingUp = worker.stage.isLookingUp := by
  induction items generalizing worker with
  | nil => rfl
  | cons item items hypothesis =>
      rw [List.foldl_cons, hypothesis, isLookingUp_resume]

theorem isLookingUp_receive (worker : Worker) (now : Time) (message : Message) :
    (worker.receive now message).stage.isLookingUp = worker.stage.isLookingUp := by
  cases message with
  | command command => exact worker.isLookingUp_resume now (.command command)
  | notified => rfl
  | recheck trigger => rfl
  | report report =>
      obtain ⟨noted, keeps, same⟩ := exists_resume_of_actionFinished worker report now
      rw [receive, same, isLookingUp_resume, keeps.stage]

theorem isLookingUp_launch (worker : Worker) (engine : Engine) (departure : Departure)
    (tree : String) (now : Time) :
    (worker.launch engine departure tree now).stage.isLookingUp = false := by
  simp only [launch]
  split <;> rfl

theorem isLookingUp_answered (worker : Worker) (answer : Option Identity) (tree : String)
    (now : Time) : (worker.answered answer tree now).stage.isLookingUp = false := by
  simp only [answered]
  split
  · exact isLookingUp_launch _ _ _ _ _
  · rename_i others
    cases stage : worker.stage with
    | idle _ => rfl
    | lookingUp engine departure => exact absurd stage (others engine departure)
    | flying _ => rfl

theorem isLookingUp_finish (worker : Worker) (flight : Flight) (now : Time) (ending : Ending) :
    (worker.finish flight now ending).stage.isLookingUp = false := by
  cases ending with
  | landed host session =>
      rw [finish, passFinished, (noteEffects_keepsStage _ _).stage]
      exact isLookingUp_resumeAll _ now _
  | failed => exact isLookingUp_resumeAll _ now _

theorem pending_depart (worker : Worker) (engine : Engine) (front : Foreground)
    (trigger : PassTrigger) (now : Time) :
    (worker.depart engine front trigger now).pending = worker.pending := by
  have noted (worker : Worker) (batch : Option Batch) :
      (worker.noteActivity front batch now).pending = worker.pending := by
    simp only [noteActivity]
    split
    · rfl
    · split <;> split <;> rfl
  have cheap (worker : Worker) : (worker.cheapAppId front now).2.pending = worker.pending := by
    simp only [cheapAppId]
    split <;> rfl
  simp only [depart]
  split
  · exact (cheap _).trans (noted _ _)
  · simp only [launch]
    split <;> exact (cheap _).trans (noted _ _)

/-- A request is not kept waiting by a worker that goes on with the engine at hand. -/
theorem pending_proceed (awake : worker.stage.isLookingUp = false) (front : Foreground)
    (now : Time) (held : (worker.proceed front now).stage.heldEngine?.isSome) :
    (worker.proceed front now).pending = none := by
  simp only [proceed] at held ⊢
  split at held
  · exact pending_depart _ _ _ _ _
  · rename_i others
    cases stage : worker.stage with
    | idle engine =>
        cases asked : worker.pending with
        | none => rfl
        | some trigger => exact absurd asked (others engine trigger stage)
    | lookingUp _ _ =>
        rw [stage] at awake
        cases awake
    | flying flight =>
        rw [stage] at held
        cases held

theorem Step.unasked (step : worker.Step occurrences after)
    (unasked : worker.stage.heldEngine?.isSome → worker.pending = none)
    (held : after.stage.heldEngine?.isSome) : after.pending = none := by
  cases step with
  | submit notification => exact unasked held
  | listen =>
      have same : worker.listen.pending = worker.pending := by
        simp only [Worker.listen]
        split <;> rfl
      rw [worker.listen_keepsStage.stage] at held
      exact same.trans (unasked held)
  | receive awake front now message =>
      exact pending_proceed ((worker.isLookingUp_receive now message).trans awake) front now held
  | answer answer front now =>
      exact pending_proceed (worker.isLookingUp_answered answer front.tree now) front now held
  | finish flying ending front now =>
      exact pending_proceed (worker.isLookingUp_finish _ now ending) front now held

theorem Reached.unasked {config : EngineConfig} {timing : Timing} {activities : ActivityTable}
    {began : Time} {history : List Occurrence}
    (reached : Reached config timing activities began worker history)
    (held : worker.stage.heldEngine?.isSome) : worker.pending = none := by
  induction reached with
  | start => rfl
  | step earlier step hypothesis => exact step.unasked hypothesis held

end Requests

section Serial

open Occurrence (isDeparture isEnding)

variable {config : EngineConfig} {timing : Timing} {activities : ActivityTable} {began : Time}
  {worker : Worker} {history : List Occurrence}

/-- What happened to a worker is one turn after the other, with at most one pass in flight and
at most one more asked for. -/
structure IsSerial (worker : Worker) (config : EngineConfig) (timing : Timing) (began : Time)
    (history : List Occurrence) : Prop where
  /-- The worker holds the engine exactly if every pass that started is over. -/
  single : history.countP isDeparture =
    history.countP isEnding + if worker.stage.heldEngine?.isSome then 0 else 1
  /-- A pass is asked for, and not yet started, only while another one is in flight. -/
  asked : worker.pending.isSome → worker.stage.heldEngine? = none
  turns : ∃ (turns : List Turn) (aloft : List Occurrence),
    history = turns.flatMap Turn.occurrences ++ aloft ∧
      let service := (Service.start config timing began).takeAll timing turns
      worker.config = service.config ∧
        (∀ engine, worker.stage.heldEngine? = some engine →
          engine = service.engine ∧ aloft = [] ∧ worker.deferred = []) ∧
        (∀ flight, worker.stage = .flying flight → ∃ meanwhile : List (Deferred × Time),
          (flight.engine, flight.begun) = service.engine.enter flight.request ∧
            aloft = .departed flight.request :: meanwhile.map .ofTold ∧
            worker.deferred = meanwhile.map (·.1))

theorem TakesTurns.single (taken : TakesTurns timing (.start config timing began) worker history) :
    history.countP isDeparture =
      history.countP isEnding + if worker.stage.heldEngine?.isSome then 0 else 1 := by
  cases taken with
  | holds turns holds =>
      rw [countP_flatMap_occurrences, holds.engine]
      rfl
  | lends turns request meanwhile lends =>
      have departed := countP_ofTold isDeparture (fun _ _ => rfl) meanwhile
      have ended := countP_ofTold isEnding (fun _ _ => rfl) meanwhile
      simp only [List.countP_append, List.countP_cons, countP_flatMap_occurrences,
        lends.heldEngine?, departed, ended]
      rfl

/-- However notifications, timers, commands, reports of actions and ends of passes follow one
another, at most one pass is in flight and at most one more is asked for.  While no pass is
in flight, the worker holds the engine that the turns so far make of a new one. -/
theorem serves_in_turns (reached : Reached config timing activities began worker history) :
    worker.IsSerial config timing began history := by
  refine ⟨reached.takesTurns.single, ?_, ?_⟩
  · intro asked
    cases held : worker.stage.heldEngine? with
    | none => rfl
    | some engine =>
        rw [reached.unasked (Option.isSome_of_mem held)] at asked
        cases asked
  · cases reached.takesTurns with
    | holds turns holds =>
        refine ⟨turns, [], (List.append_nil _).symm, holds.config, ?_, ?_⟩
        · intro engine held
          exact ⟨holds.engine_eq held, rfl, holds.deferred⟩
        · intro flight flying
          exact absurd flying (holds.not_flying flight)
    | lends turns request meanwhile lends =>
        refine ⟨turns, .departed request :: meanwhile.map .ofTold, rfl, lends.config, ?_, ?_⟩
        · intro engine held
          rw [lends.heldEngine?] at held
          cases held
        · intro flight flying
          obtain ⟨tree, same⟩ := lends.flight
          rw [flying] at same
          cases same
          exact ⟨meanwhile, rfl, rfl, lends.deferred⟩

/-- The engine that a worker holds went through a run since it was new. -/
theorem Reached.isRun (reached : Reached config timing activities began worker history)
    {engine : Engine} (held : worker.stage.heldEngine? = some engine) :
    Service.IsRun ⟨worker.config, engine⟩ timing := by
  cases reached.takesTurns with
  | holds turns holds =>
      rw [holds.engine_eq held]
      exact Service.takeAll_isRun config timing began turns
  | lends turns request meanwhile lends =>
      rw [lends.heldEngine?] at held
      cases held

end Serial

section Failure

open Ledger (skipConfig)

def inFront (appId : String) : Foreground := { tree := "t", activeApp := some appId }

def requestOfA (trigger : PassTrigger) (now : Time) : PassRequest :=
  ⟨none, ⟨"a", some "a.A", 0⟩, trigger, now⟩

/-- The pass that is going to fail. -/
def failingFlight : Flight :=
  let entered := (Engine.start {} {} 0).enter (requestOfA .notification 1)
  ⟨entered.1, requestOfA .notification 1, entered.2, "t"⟩

/-- The worker is notified and looks up what is in front. -/
def afterNotice : Worker := (start {} {} (.empty 1) 0).notified.proceed (inFront "a") 0

/-- What is in front is known, and a pass starts. -/
def afterAnswer : Worker :=
  (afterNotice.answered (some ⟨"a", some "a.A", 0⟩) "t" 1).proceed (inFront "a") 1

/-- Another configuration is to be put in force while the pass is in flight. -/
def afterConfigure : Worker :=
  (afterAnswer.command (.configure skipConfig) 2).proceed (inFront "a") 2

/-- The pass comes to grief. -/
def afterFailure : Worker := (afterConfigure.passFailed 3).proceed (inFront "a") 3

/-- What happened to the worker whose pass failed. -/
def failureHistory : List Occurrence :=
  [.departed (requestOfA .notification 1), .received (.command (.configure skipConfig)) 2,
    .ended .failed 3, .departed (requestOfA .config 3)]

theorem afterFailure_reached : Reached {} {} (.empty 1) 0 afterFailure failureHistory := by
  have first : Reached {} {} (.empty 1) 0 afterNotice [] :=
    .step .start (.receive rfl (inFront "a") 0 .notified)
  have second : Reached {} {} (.empty 1) 0 afterAnswer (failureHistory.take 1) :=
    .step first (.answer (some ⟨"a", some "a.A", 0⟩) (inFront "a") 1)
  have third : Reached {} {} (.empty 1) 0 afterConfigure (failureHistory.take 2) :=
    .step second (.receive rfl (inFront "a") 2 (.command (.configure skipConfig)))
  have flying : afterConfigure.stage = .flying failingFlight := rfl
  exact .step third (.finish flying .failed (inFront "a") 3)

/-- The worker whose pass failed was served in turns. -/
theorem afterFailure_in_turns : Reached {} {} (.empty 1) 0 afterFailure failureHistory ∧
    afterFailure.IsSerial {} {} 0 failureHistory :=
  ⟨afterFailure_reached, serves_in_turns afterFailure_reached⟩

end Failure

end Worker

end TreeSelector

import TreeSelector.Proofs.Scheduler.Serial

/-!
# Timers of former passes

A timer is armed by the effects of a pass and becomes void once a pass completes in another
generation.  Generations tell apart what is in front only as long as the engine lives: a new
engine counts them from the beginning, while the worker goes by the number it saw last.
-/

namespace TreeSelector

/-- What came of a pass. -/
inductive Outcome where
  | landed (report : PassReport)
  | failed
  deriving DecidableEq

/-- Whether the pass was over with something else in front. -/
def Outcome.isForeign (identity : Identity) : Outcome → Bool
  | landed report => report.identity ≠ identity
  | failed => false

/-- A timer that was armed, the pass whose effects armed it, and what came of the passes
since, the oldest first. -/
structure Alarm where
  timer : Timer
  origin : PassReport
  since : List Outcome

namespace Alarm

/-- Another pass is over. -/
def note (alarm : Alarm) (report : PassReport) : Alarm :=
  { alarm with since := alarm.since ++ [.landed report] }

/-- The engine is lost, and so nothing can reset the rule of the timer any more. -/
def orphan (alarm : Alarm) : Alarm where
  timer := { alarm.timer with token := none }
  origin := alarm.origin
  since := alarm.since ++ [.failed]

/-- Whether a pass since was over with something else in front. -/
def IsOvertaken (alarm : Alarm) : Prop :=
  ∃ outcome ∈ alarm.since, outcome.isForeign alarm.origin.identity = true

theorem IsOvertaken.exists_landed {alarm : Alarm} (overtaken : alarm.IsOvertaken) :
    ∃ report, .landed report ∈ alarm.since ∧ report.identity ≠ alarm.origin.identity := by
  obtain ⟨outcome, member, other⟩ := overtaken
  cases outcome with
  | landed report => exact ⟨report, member, of_decide_eq_true other⟩
  | failed => cases other

instance (alarm : Alarm) : Decidable alarm.IsOvertaken :=
  inferInstanceAs (Decidable (∃ outcome ∈ alarm.since, _))

/-- All passes since that were over in the same generation had the same in front. -/
def IsLoyal (alarm : Alarm) : Prop :=
  ∀ report, .landed report ∈ alarm.since → report.generation = alarm.origin.generation →
    report.identity = alarm.origin.identity

end Alarm

/-- What a pass in flight comes to if it looks at a tree. -/
def Flight.outcome (flight : Flight) (host : Host) (session : Session) :
    Engine × PassReport × List Effect :=
  (flight.engine.look host flight.request flight.begun).answer session

/-- A pass in flight reports what was in front and the generation when it began. -/
theorem Flight.outcome_front (flight : Flight) (host : Host) (session : Session) :
    (flight.outcome host session).1.identity = flight.engine.identity ∧
      (flight.outcome host session).1.generation = flight.engine.generation ∧
      (flight.outcome host session).2.1.identity = flight.request.identity ∧
      (flight.outcome host session).2.1.generation = flight.engine.generation := by
  have rules := flight.engine.look_rules host flight.request flight.begun session
  obtain ⟨_, _, reported, _⟩ :=
    flight.engine.look_revises host flight.request flight.begun session
  exact ⟨congrArg (·.identity) rules, congrArg (·.generation) rules,
    (flight.engine.report_look host flight.request flight.begun session).1, reported⟩

namespace Worker

/-- The timers that the effects of a pass arm. -/
def arm (worker : Worker) (now : Time) (report : PassReport) (effects : List Effect) :
    List Alarm :=
  (effects.filterMap (worker.timer? now)).map (⟨·, report, []⟩)

/-- A worker that was started at some time, and the timers that were armed since and did not
go off yet.  When the engine is lost, those that are void are given up. -/
inductive Clocked (config : EngineConfig) (timing : Timing) (activities : ActivityTable)
    (began : Time) : Worker → List Alarm → Prop where
  | start : Clocked config timing activities began (.start config timing activities began) []
  | work {worker after : Worker} {alarms : List Alarm} {occurrences : List Occurrence} :
      Clocked config timing activities began worker alarms →
      worker.Step occurrences after → occurrences.countP Occurrence.isEnding = 0 →
      Clocked config timing activities began after alarms
  | land {worker : Worker} {alarms : List Alarm} {flight : Flight} :
      Clocked config timing activities began worker alarms →
      worker.stage = .flying flight → ∀ host session front now,
      Clocked config timing activities began
        ((worker.finish flight now (.landed host session)).proceed front now)
        (alarms.map (·.note (flight.outcome host session).2.1) ++
          (worker.finish flight now (.landed host session)).arm now
            (flight.outcome host session).2.1 (flight.outcome host session).2.2)
  | fail {worker : Worker} {alarms : List Alarm} {flight : Flight} :
      Clocked config timing activities began worker alarms →
      worker.stage = .flying flight → ∀ front now,
      Clocked config timing activities began
        ((worker.finish flight now .failed).proceed front now)
        ((alarms.filter (worker.awaits ·.timer)).map Alarm.orphan)
  | expire {worker : Worker} {alarms remaining : List Alarm} :
      Clocked config timing activities began worker alarms → remaining.Sublist alarms →
      Clocked config timing activities began worker remaining

end Worker

section Stages

namespace Stage

/-- A pass in flight has begun with what is in front. -/
def IsBound (stage : Stage) : Prop :=
  ∀ flight, stage = .flying flight → flight.engine.identity = some flight.request.identity

theorem isBound_idle (engine : Engine) : (idle engine).IsBound := by
  intro flight flying
  cases flying

/-- The pass in flight, if there is one. -/
def flight? : Stage → Option Flight
  | flying flight => some flight
  | _ => none

/-- No pass of the engine is over yet. -/
def IsUntried : Stage → Prop
  | idle engine | lookingUp engine _ => engine.identity = none ∧ engine.generation = 0
  | flying flight => flight.engine.generation = 1

/-- No pass ends; another one may start. -/
structure Goes (before after : Stage) : Prop where
  front : (after.engine.generation = before.engine.generation ∧
      after.engine.identity = before.engine.identity) ∨
    before.engine.generation < after.engine.generation
  bound : before.IsBound → after.IsBound
  untried : before.IsUntried → after.IsUntried

namespace Goes

variable {stage : Stage} {engine changed : Engine}

theorem refl (stage : Stage) : stage.Goes stage := ⟨.inl ⟨rfl, rfl⟩, id, id⟩

theorem trans {first second third : Stage} (begins : first.Goes second)
    (ends : second.Goes third) : first.Goes third where
  front := by
    rcases begins.front with ⟨generation, identity⟩ | later
    · rw [← generation, ← identity]
      exact ends.front
    · rcases ends.front with ⟨generation, _⟩ | later'
      · exact .inr (generation ▸ later)
      · exact .inr (later.trans later')
  bound := ends.bound ∘ begins.bound
  untried := ends.untried ∘ begins.untried

/-- What becomes of the engine while no pass holds it does not change what was in front. -/
theorem held {after : Stage} (held : stage.heldEngine? = some engine)
    (holds : after.heldEngine? = some changed) (generation : changed.generation = engine.generation)
    (identity : changed.identity = engine.identity) : stage.Goes after := by
  have same : stage.engine = engine := by
    cases stage <;> cases held <;> rfl
  have same' : after.engine = changed := by
    cases after <;> cases holds <;> rfl
  refine ⟨.inl ?_, ?_, ?_⟩
  · rw [same, same']
    exact ⟨generation, identity⟩
  · rintro _ flight rfl
    cases holds
  · intro untried
    have blank : engine.identity = none ∧ engine.generation = 0 := by
      cases stage <;> cases held <;> exact untried
    have blank' := And.intro (identity.trans blank.1) (generation.trans blank.2)
    cases after <;> cases holds <;> exact blank'

theorem withEngine (held : stage.heldEngine? = some engine)
    (generation : changed.generation = engine.generation)
    (identity : changed.identity = engine.identity) : stage.Goes (stage.withEngine changed) := by
  refine .held held ?_ generation identity
  cases stage <;> cases held <;> rfl

/-- As a pass starts, either nothing else is in front or a new generation begins. -/
theorem depart (held : stage.heldEngine? = some engine) (request : PassRequest) (tree : String) :
    stage.Goes
      (.flying ⟨(engine.enter request).1, request, (engine.enter request).2, tree⟩) := by
  have same : stage.engine = engine := by
    cases stage <;> cases held <;> rfl
  have generation := engine.generation_enter request
  refine ⟨?_, ?_, ?_⟩
  · rw [same]
    by_cases known : engine.identity = some request.identity
    · rw [Engine.changeBy?, if_pos known] at generation
      exact .inl ⟨generation, (engine.identity_enter request).trans known.symm⟩
    · rw [Engine.changeBy?, if_neg known] at generation
      exact .inr (Nat.lt_of_succ_le generation.ge)
  · rintro _ _ ⟨rfl⟩
    exact engine.identity_enter request
  · intro untried
    have blank : engine.identity = none ∧ engine.generation = 0 := by
      cases stage <;> cases held <;> exact untried
    rw [Engine.changeBy?, blank.1, blank.2] at generation
    exact generation

end Goes

end Stage

end Stages

namespace Worker

/-- A worker goes on without the end of a pass, and so none of its timers becomes void for
what is in front. -/
structure Goes (before after : Worker) : Prop where
  generation : after.generation = before.generation
  series : after.series = before.series
  stage : before.stage.Goes after.stage

section Going

variable {worker after : Worker} {engine : Engine}

theorem Goes.trans {first second third : Worker} (begins : first.Goes second)
    (ends : second.Goes third) : first.Goes third where
  generation := ends.generation.trans begins.generation
  series := ends.series.trans begins.series
  stage := begins.stage.trans ends.stage

theorem resume_goes (worker : Worker) (now : Time) (item : Deferred) :
    worker.Goes (worker.resume now item) := by
  cases item with
  | command command =>
      simp only [resume, Worker.command]
      split
      · rename_i engine held
        cases command with
        | configure config => exact ⟨rfl, rfl, .withEngine held rfl rfl⟩
        | resetRule key =>
            simp only [execute]
            split <;> exact ⟨rfl, rfl, .withEngine held rfl rfl⟩
      · exact ⟨rfl, rfl, .refl _⟩
  | actionFinished report =>
      simp only [resume, settleAction]
      split
      · rename_i engine held
        refine ⟨rfl, rfl, .withEngine held ?_ ?_⟩
        all_goals
          unfold Engine.actionFinished
          split <;> rfl
      · exact ⟨rfl, rfl, .refl _⟩

theorem resumeAll_goes (worker : Worker) (now : Time) (items : List Deferred) :
    worker.Goes (items.foldl (resume now) worker) := by
  induction items generalizing worker with
  | nil => exact ⟨rfl, rfl, .refl _⟩
  | cons item items hypothesis => exact (worker.resume_goes now item).trans (hypothesis _)

theorem receive_goes (worker : Worker) (now : Time) (message : Message) :
    worker.Goes (worker.receive now message) := by
  cases message with
  | command command => exact worker.resume_goes now (.command command)
  | notified => exact ⟨rfl, rfl, .refl _⟩
  | recheck trigger => exact ⟨rfl, rfl, .refl _⟩
  | report report =>
      have throttled : worker.Goes { worker with
          throttle := if report.succeeded then worker.throttle.triggered now
            else worker.throttle } := ⟨rfl, rfl, .refl _⟩
      exact throttled.trans (resume_goes _ now (.actionFinished report))

theorem noteActivity_goes (worker : Worker) (front : Foreground) (batch : Option Batch)
    (now : Time) : worker.Goes (worker.noteActivity front batch now) := by
  simp only [noteActivity]
  split
  · exact ⟨rfl, rfl, .refl _⟩
  · split <;> split <;> exact ⟨rfl, rfl, .refl _⟩

theorem cheapAppId_goes (worker : Worker) (front : Foreground) (now : Time) :
    worker.Goes (worker.cheapAppId front now).2 := by
  simp only [cheapAppId]
  split <;> exact ⟨rfl, rfl, .refl _⟩

theorem launch_goes (held : worker.stage.heldEngine? = some engine) (departure : Departure)
    (tree : String) (now : Time) : worker.Goes (worker.launch engine departure tree now) := by
  simp only [launch]
  split
  · exact ⟨rfl, rfl, .held held rfl rfl rfl⟩
  · exact ⟨rfl, rfl, .depart held _ tree⟩

theorem depart_goes (held : worker.stage.heldEngine? = some engine) (front : Foreground)
    (trigger : PassTrigger) (now : Time) :
    worker.Goes (worker.depart engine front trigger now) := by
  have same := (noteActivity_keepsStage { worker with queue := worker.queue.drain.2 } front
    worker.queue.drain.1 now).trans (cheapAppId_keepsStage _ front now)
  have holds := (congrArg Stage.heldEngine? same.stage).trans held
  have drained : worker.Goes { worker with queue := worker.queue.drain.2 } :=
    ⟨rfl, rfl, .refl _⟩
  have prepared := (drained.trans (noteActivity_goes _ front worker.queue.drain.1 now)).trans
    (cheapAppId_goes _ front now)
  simp only [depart]
  split
  · exact prepared.trans ⟨rfl, rfl, .held holds rfl rfl rfl⟩
  · exact prepared.trans (launch_goes holds _ _ now)

theorem proceed_goes (worker : Worker) (front : Foreground) (now : Time) :
    worker.Goes (worker.proceed front now) := by
  simp only [proceed]
  split
  · rename_i engine trigger stage asked
    let aside := { worker with queue := worker.queue.leave, pending := none }
    have held : aside.stage.heldEngine? = some engine := congrArg Stage.heldEngine? stage
    have left : worker.Goes aside := ⟨rfl, rfl, .refl _⟩
    exact left.trans (depart_goes held front trigger now)
  · exact ⟨rfl, rfl, .refl _⟩

theorem answered_goes (worker : Worker) (answer : Option Identity) (tree : String) (now : Time) :
    worker.Goes (worker.answered answer tree now) := by
  simp only [answered]
  split
  · rename_i engine departure stage
    have held : (worker.learnFront departure answer).stage.heldEngine? = some engine :=
      congrArg Stage.heldEngine? stage
    have learnt : worker.Goes (worker.learnFront departure answer) := ⟨rfl, rfl, .refl _⟩
    exact learnt.trans (launch_goes held departure tree now)
  · exact ⟨rfl, rfl, .refl _⟩

/-- A worker goes on as long as no pass ends. -/
theorem Step.goes {occurrences : List Occurrence} (step : worker.Step occurrences after)
    (aloft : occurrences.countP Occurrence.isEnding = 0) : worker.Goes after := by
  cases step with
  | submit notification => exact ⟨rfl, rfl, .refl _⟩
  | listen =>
      simp only [Worker.listen]
      split <;> exact ⟨rfl, rfl, .refl _⟩
  | receive awake front now message =>
      exact (worker.receive_goes now message).trans (proceed_goes _ front now)
  | answer answer front now =>
      exact (worker.answered_goes answer front.tree now).trans (proceed_goes _ front now)
  | finish flying ending front now =>
      rw [List.countP_cons] at aloft
      exact absurd aloft (Nat.succ_ne_zero _)

theorem noteEffects_goes (worker : Worker) (effects : List Effect) :
    worker.Goes (effects.foldl noteEffect worker) := by
  rw [foldl_noteEffect]
  split <;> exact ⟨rfl, rfl, .refl _⟩

theorem applyDeferred_goes (worker : Worker) (now : Time) :
    worker.Goes (worker.applyDeferred now) := by
  have cleared : worker.Goes { worker with deferred := [] } := ⟨rfl, rfl, .refl _⟩
  exact cleared.trans (resumeAll_goes _ now worker.deferred)

theorem generation_noteGeneration (worker : Worker) (generation : Nat) :
    (worker.noteGeneration generation).generation = generation := by
  simp only [noteGeneration]
  split
  · rename_i same
    exact same.symm
  · rfl

theorem series_of_timer? {now : Time} {effect : Effect} {timer : Timer}
    (arms : worker.timer? now effect = some timer) : timer.series = worker.series := by
  cases effect <;> cases arms <;> rfl

/-- When a pass completes, the worker takes note of its generation and goes on. -/
theorem finish_landed_goes (worker : Worker) (flight : Flight) (host : Host) (session : Session)
    (now : Time) :
    Goes { worker.noteGeneration (flight.outcome host session).1.generation with
        stage := .idle (flight.outcome host session).1 }
      (worker.finish flight now (.landed host session)) := by
  let outcome := flight.outcome host session
  let noted := worker.noteGeneration outcome.1.generation
  have fronted : Goes { noted with stage := .idle outcome.1 }
      { noted.noteFrontApp outcome.2.1.identity.appId now with stage := .idle outcome.1 } := by
    simp only [noteFrontApp]
    split <;> exact ⟨rfl, rfl, .refl _⟩
  exact (fronted.trans (applyDeferred_goes _ now)).trans (noteEffects_goes _ outcome.2.2)

theorem finish_failed_goes (worker : Worker) (flight : Flight) (now : Time) :
    Goes { worker with stage := .idle (.start worker.config worker.timing now) }
      (worker.finish flight now .failed) :=
  applyDeferred_goes _ now

end Going

end Worker

section Soundness

variable {alarm : Alarm} {worker after : Worker}

namespace Alarm

/-- An engine went on from the pass that armed the timer. -/
structure Precedes (alarm : Alarm) (engine : Engine) : Prop where
  generation_le : alarm.origin.generation ≤ engine.generation
  identity : engine.generation = alarm.origin.generation →
    engine.identity = some alarm.origin.identity

/-- What is known of a timer: its number is the one in force as long as no pass was over in
another generation, and that tells apart what was in front unless the engine was lost. -/
structure IsSound (alarm : Alarm) (worker : Worker) : Prop where
  series_le : alarm.timer.series ≤ worker.series
  current : alarm.timer.series = worker.series → worker.generation = alarm.origin.generation
  lasting : alarm.timer.series = worker.series ↔
    ∀ report, .landed report ∈ alarm.since → report.generation = alarm.origin.generation
  attached : .failed ∉ alarm.since → alarm.IsLoyal ∧ alarm.Precedes worker.stage.engine
  orphaned : .failed ∈ alarm.since → alarm.timer.token = none ∧
    (alarm.IsLoyal ∧ worker.stage.IsUntried ∨
      ∃ report, .landed report ∈ alarm.since ∧ report.generation = 1)

theorem Precedes.keep (precedes : alarm.Precedes worker.stage.engine) (goes : worker.Goes after) :
    alarm.Precedes after.stage.engine := by
  rcases goes.stage.front with ⟨generation, identity⟩ | later
  · exact ⟨generation ▸ precedes.generation_le, by rw [generation, identity]; exact precedes.identity⟩
  · have older := precedes.generation_le.trans_lt later
    exact ⟨older.le, fun same => absurd same older.ne'⟩

theorem IsSound.keep (sound : alarm.IsSound worker) (goes : worker.Goes after) :
    alarm.IsSound after where
  series_le := goes.series ▸ sound.series_le
  current := by
    rw [goes.series, goes.generation]
    exact sound.current
  lasting := by
    rw [goes.series]
    exact sound.lasting
  attached kept := (sound.attached kept).imp_right (·.keep goes)
  orphaned lost := by
    obtain ⟨free, untried | tried⟩ := sound.orphaned lost
    · exact ⟨free, .inl ⟨untried.1, goes.stage.untried untried.2⟩⟩
    · exact ⟨free, .inr tried⟩

section Endings

variable {flight : Flight}

theorem mem_note {outcome : Outcome} {report : PassReport} :
    outcome ∈ (alarm.note report).since ↔ outcome ∈ alarm.since ∨ outcome = .landed report := by
  simp only [note, List.mem_append, List.mem_singleton]

theorem mem_orphan {outcome : Outcome} :
    outcome ∈ alarm.orphan.since ↔ outcome ∈ alarm.since ∨ outcome = .failed := by
  simp only [orphan, List.mem_append, List.mem_singleton]

theorem IsLoyal.note (loyal : alarm.IsLoyal) {report : PassReport}
    (same : report.generation = alarm.origin.generation →
      report.identity = alarm.origin.identity) : (alarm.note report).IsLoyal := by
  intro reported landed
  rcases mem_note.mp landed with earlier | last
  · exact loyal reported earlier
  · cases last
    exact same

theorem IsLoyal.orphan (loyal : alarm.IsLoyal) : alarm.orphan.IsLoyal := by
  intro reported landed
  rcases mem_orphan.mp landed with earlier | last
  · exact loyal reported earlier
  · cases last

/-- The number of a timer stays in force exactly if the pass that is over had its generation. -/
theorem IsSound.series_noteGeneration (sound : alarm.IsSound worker) (generation : Nat) :
    alarm.timer.series ≤ (worker.noteGeneration generation).series ∧
      (alarm.timer.series = (worker.noteGeneration generation).series ↔
        alarm.timer.series = worker.series ∧ generation = alarm.origin.generation) := by
  have le := sound.series_le
  have current := sound.current
  simp only [Worker.noteGeneration]
  split
  · rename_i same
    refine ⟨le, fun lasts => ⟨lasts, same.trans (current lasts)⟩, And.left⟩
  · rename_i other
    refine ⟨le.trans (Nat.le_succ _), fun lasts => ?_, fun lasting => ?_⟩
    · exact absurd le (Nat.not_le.mpr (lasts ▸ Nat.lt_succ_self _))
    · exact absurd (lasting.2.trans (current lasting.1).symm) other

/-- A pass that completes in the generation of a timer has the same in front, as long as the
engine lives. -/
theorem IsSound.landed (sound : alarm.IsSound worker) (flying : worker.stage = .flying flight)
    (bound : worker.stage.IsBound) (host : Host) (session : Session) (now : Time) :
    (alarm.note (flight.outcome host session).2.1).IsSound
      (worker.finish flight now (.landed host session)) := by
  obtain ⟨identity, generation, reported, numbered⟩ := flight.outcome_front host session
  have engine : worker.stage.engine = flight.engine := congrArg Stage.engine flying
  obtain ⟨le, lasts⟩ := sound.series_noteGeneration (flight.outcome host session).1.generation
  have numbers : (flight.outcome host session).2.1.generation =
      (flight.outcome host session).1.generation := numbered.trans generation.symm
  refine IsSound.keep ?_ (worker.finish_landed_goes flight host session now)
  refine ⟨le, fun same => ?_, ?_, fun kept => ?_, fun lost => ?_⟩
  · exact (worker.generation_noteGeneration _).trans (lasts.mp same).2
  · refine lasts.trans ⟨fun ⟨same, last⟩ report landed => ?_, fun all => ?_⟩
    · rcases mem_note.mp landed with earlier | final
      · exact sound.lasting.mp same report earlier
      · cases final
        exact numbers.trans last
    · exact ⟨sound.lasting.mpr fun report landed => all report (mem_note.mpr (.inl landed)),
        numbers.symm.trans (all _ (mem_note.mpr (.inr rfl)))⟩
  · obtain ⟨loyal, precedes⟩ := sound.attached fun lost => kept (mem_note.mpr (.inl lost))
    rw [engine] at precedes
    refine ⟨loyal.note fun same => ?_, generation ▸ precedes.generation_le, ?_⟩
    · have front := (bound flight flying).symm.trans (precedes.identity (numbered.symm.trans same))
      exact reported.trans (Option.some.inj front)
    · rw [show Stage.engine (.idle _) = (flight.outcome host session).1 from rfl, generation,
        identity]
      exact precedes.identity
  · have lost' : .failed ∈ alarm.since := (mem_note.mp lost).resolve_right nofun
    obtain ⟨free, ⟨_, untried⟩ | ⟨report, landed, first⟩⟩ := sound.orphaned lost'
    · rw [flying] at untried
      exact ⟨free, .inr ⟨_, mem_note.mpr (.inr rfl), numbered.trans untried⟩⟩
    · exact ⟨free, .inr ⟨report, mem_note.mpr (.inl landed), first⟩⟩

theorem IsSound.orphan (sound : alarm.IsSound worker) (flight : Flight) (now : Time) :
    alarm.orphan.IsSound (worker.finish flight now .failed) := by
  refine IsSound.keep ?_ (worker.finish_failed_goes flight now)
  have same (report : PassReport) :
      .landed report ∈ alarm.orphan.since ↔ .landed report ∈ alarm.since :=
    mem_orphan.trans (or_iff_left nofun)
  refine ⟨sound.series_le, sound.current, ?_, fun kept => ?_, fun _ => ⟨rfl, ?_⟩⟩
  · simp only [same]
    exact sound.lasting
  · exact absurd (mem_orphan.mpr (.inr rfl)) kept
  · by_cases lost : .failed ∈ alarm.since
    · rcases (sound.orphaned lost).2 with ⟨loyal, _⟩ | ⟨report, landed, first⟩
      · exact .inl ⟨loyal.orphan, rfl, rfl⟩
      · exact .inr ⟨report, (same report).mpr landed, first⟩
    · exact .inl ⟨(sound.attached lost).1.orphan, rfl, rfl⟩

/-- The timers that a pass arms are in force. -/
theorem isSound_of_mem_arm (flying : worker.stage = .flying flight)
    (bound : worker.stage.IsBound) {host : Host} {session : Session} {now : Time}
    (armed : alarm ∈ (worker.finish flight now (.landed host session)).arm now
      (flight.outcome host session).2.1 (flight.outcome host session).2.2) :
    alarm.IsSound (worker.finish flight now (.landed host session)) := by
  obtain ⟨identity, generation, reported, numbered⟩ := flight.outcome_front host session
  have goes := worker.finish_landed_goes flight host session now
  obtain ⟨timer, member, rfl⟩ := List.mem_map.mp armed
  obtain ⟨effect, _, arms⟩ := List.mem_filterMap.mp member
  have series := Worker.series_of_timer? arms
  refine IsSound.keep ?_ goes
  refine ⟨(series.trans goes.series).le, fun _ => ?_, ?_, fun _ => ⟨nofun, ?_, ?_⟩, nofun⟩
  · exact (worker.generation_noteGeneration _).trans (generation.trans numbered.symm)
  · exact iff_of_true (series.trans goes.series) nofun
  · exact (numbered.trans generation.symm).le
  · intro _
    exact identity.trans ((bound flight flying).trans (congrArg some reported.symm))

end Endings

end Alarm

end Soundness

namespace World

variable {config : EngineConfig} {timing : Timing} {activities : ActivityTable} {began : Time}
  {world next : World}

/-- The timers of a world are those of its worker. -/
def IsClocked (world : World) (config : EngineConfig) (timing : Timing)
    (activities : ActivityTable) (began : Time) : Prop :=
  ∃ alarms, Worker.Clocked config timing activities began world.worker alarms ∧
    alarms.map (·.timer) = world.timers

theorem timers_proceed (world : World) (worker : Worker) :
    (world.proceed worker).timers = world.timers := by
  unfold proceed startLookup
  split
  · simp only [askTop]
    split <;> rfl
  · rfl

theorem sublist_takeDue? {now : Time} {timers : List Timer} {found : Timer × List Timer}
    (due : takeDue? now timers = some found) : found.2.Sublist timers := by
  induction timers generalizing found with
  | nil => cases due
  | cons timer timers hypothesis =>
      rw [takeDue?] at due
      split at due
      · obtain rfl := Option.some.inj due
        exact List.sublist_cons_self timer timers
      · obtain ⟨later, found', rfl⟩ := Option.map_eq_some_iff.mp due
        exact (hypothesis found').cons_cons timer

theorem IsClocked.fireTimer? (clocked : world.IsClocked config timing activities began)
    (goesOn : world.fireTimer? = some next) : next.IsClocked config timing activities began := by
  obtain ⟨alarms, clocked, timers⟩ := clocked
  obtain ⟨found, due, rfl⟩ := Option.map_eq_some_iff.mp goesOn
  obtain ⟨remaining, fewer, same⟩ :=
    List.sublist_map_iff.mp (timers ▸ sublist_takeDue? due)
  exact ⟨remaining, clocked.expire fewer, same.symm⟩

/-- A worker goes on in a world, which leaves the timers alone. -/
theorem isClocked_proceed {passed : World} {worker : Worker} {alarms : List Alarm}
    (clocked : Worker.Clocked config timing activities began
      (worker.proceed passed.host.front passed.now) alarms)
    (timers : alarms.map (·.timer) = passed.timers) :
    (passed.proceed worker).IsClocked config timing activities began :=
  ⟨alarms, (worker_proceed passed worker).symm ▸ clocked,
    timers.trans (timers_proceed passed worker).symm⟩

theorem countP_departures (before after : Worker) :
    (before.departures after).countP Occurrence.isEnding = 0 := by
  unfold Worker.departures
  split <;> rfl

theorem countP_received (message : Worker.Message) (now : Time) (before after : Worker) :
    (message.items.map (Occurrence.received · now) ++ before.departures after).countP
      Occurrence.isEnding = 0 := by
  rw [List.countP_append, countP_departures]
  cases message <;> rfl

theorem IsClocked.finishLookup? (clocked : world.IsClocked config timing activities began)
    (goesOn : world.finishLookup? = some next) :
    next.IsClocked config timing activities began := by
  obtain ⟨alarms, clocked, timers⟩ := clocked
  simp only [World.finishLookup?] at goesOn
  split at goesOn
  · rename_i due answer asked
    split at goesOn
    · obtain rfl := Option.some.inj goesOn
      exact isClocked_proceed
        (clocked.work (.answer answer world.host.front world.now) (countP_departures _ _)) timers
    · cases goesOn
  · cases goesOn

theorem IsClocked.takeMessage? (clocked : world.IsClocked config timing activities began)
    (goesOn : world.takeMessage? = some next) :
    next.IsClocked config timing activities began := by
  obtain ⟨alarms, clocked, timers⟩ := clocked
  simp only [World.takeMessage?] at goesOn
  split at goesOn
  · cases goesOn
  · rename_i others
    have awake : world.worker.stage.isLookingUp = false := by
      cases stage : world.worker.stage with
      | idle _ => rfl
      | lookingUp engine departure => exact absurd stage (others engine departure)
      | flying _ => rfl
    have received (message : Worker.Message) := clocked.work
      (.receive awake world.host.front world.now message) (countP_received message _ _ _)
    split at goesOn
    · obtain rfl := Option.some.inj goesOn
      exact isClocked_proceed (received (.command _)) timers
    · obtain rfl := Option.some.inj goesOn
      exact isClocked_proceed (received .notified) timers
    · obtain rfl := Option.some.inj goesOn
      exact isClocked_proceed (received (.recheck _)) timers
    · obtain rfl := Option.some.inj goesOn
      exact isClocked_proceed (received (.report _)) timers
    · cases goesOn

theorem IsClocked.land (clocked : world.IsClocked config timing activities began)
    {flight : Flight} (flying : world.worker.stage = .flying flight)
    (shown : (world.trees.lookup flight.tree).isSome) :
    (world.land flight).IsClocked config timing activities began := by
  obtain ⟨alarms, clocked, timers⟩ := clocked
  unfold World.land
  split
  · rename_i hidden
    rw [hidden] at shown
    cases shown
  · rename_i host _
    split
    rename_i engine report effects session outcome
    split
    · refine isClocked_proceed (clocked.fail flying world.host.front world.now) ?_
      simp only [orphans, ← timers, List.map_map, List.filter_map]
      rfl
    · have answer : flight.outcome host (.fresh defaultCapacity) = (engine, report, effects) :=
        congrArg Prod.fst outcome
      have landed := clocked.land flying host (.fresh defaultCapacity) world.host.front world.now
      have finished : world.worker.finish flight world.now
          (.landed host (.fresh defaultCapacity)) =
          world.worker.passFinished engine report effects world.now := by
        simp only [Worker.finish, ← Flight.outcome.eq_def, answer]
      rw [answer, finished] at landed
      refine isClocked_proceed landed ?_
      simp only [carryOut, Worker.arm, List.map_append, List.map_map, ← timers]
      exact congrArg (_ ++ ·) (List.map_id _)

theorem passGate?_eq {flight : Flight} (gone : world.passGate? flight = some next) :
    ∃ gate, next = { world with gate } := by
  simp only [passGate?] at gone
  split at gone
  · split at gone
    · exact ⟨world.gate, (Option.some.inj gone).symm⟩
    · cases gone
    · exact ⟨_, (Option.some.inj gone).symm⟩
  · exact ⟨world.gate, (Option.some.inj gone).symm⟩

/-- Whatever happens in a world that has a tree for the pass in flight, its timers are those of
its worker. -/
theorem IsClocked.step? (clocked : world.IsClocked config timing activities began)
    (shown : ∀ flight, world.worker.stage = .flying flight →
      (world.trees.lookup flight.tree).isSome)
    (goesOn : world.step? = some next) : next.IsClocked config timing activities began := by
  simp only [World.step?, Option.or_eq_some_iff] at goesOn
  rcases goesOn with lookup | ⟨-, action | ⟨-, timer | ⟨-, request | ⟨-, message | ⟨-, pass⟩⟩⟩⟩⟩
  · exact clocked.finishLookup? lookup
  · simp only [finishAction?] at action
    split at action
    · split at action
      · rw [← Option.some.inj action]
        exact clocked
      · cases action
    · cases action
  · exact clocked.fireTimer? timer
  · simp only [startAction?] at request
    split at request
    · rw [← Option.some.inj request]
      exact clocked
    · cases request
  · exact clocked.takeMessage? message
  · simp only [finishPass?] at pass
    split at pass
    · rename_i flight flying
      obtain ⟨passed, gone, rfl⟩ := Option.map_eq_some_iff.mp pass
      obtain ⟨gate, rfl⟩ := passGate?_eq gone
      have open' : { world with gate }.IsClocked config timing activities began := clocked
      exact open'.land flying (shown flight flying)
    · cases pass

end World

namespace Worker

section Clock

variable {config : EngineConfig} {timing : Timing} {activities : ActivityTable} {began : Time}
  {worker : Worker} {alarms : List Alarm} {alarm : Alarm}

theorem Clocked.isSound (clocked : Clocked config timing activities began worker alarms) :
    worker.stage.IsBound ∧ ∀ alarm ∈ alarms, alarm.IsSound worker := by
  induction clocked with
  | start => exact ⟨Stage.isBound_idle _, fun alarm armed => absurd armed List.not_mem_nil⟩
  | work _ step aloft hypothesis =>
      have goes := step.goes aloft
      exact ⟨goes.stage.bound hypothesis.1, fun alarm armed => (hypothesis.2 alarm armed).keep goes⟩
  | @land worker alarms flight _ flying host session front now hypothesis =>
      obtain ⟨bound, sound⟩ := hypothesis
      have proceeds := proceed_goes (worker.finish flight now (.landed host session)) front now
      have goes := (worker.finish_landed_goes flight host session now).trans proceeds
      refine ⟨goes.stage.bound (Stage.isBound_idle _), fun alarm armed => ?_⟩
      rcases List.mem_append.mp armed with old | new
      · obtain ⟨former, member, rfl⟩ := List.mem_map.mp old
        exact ((sound former member).landed flying bound host session now).keep proceeds
      · exact (Alarm.isSound_of_mem_arm flying bound new).keep proceeds
  | @fail worker alarms flight _ flying front now hypothesis =>
      have proceeds := proceed_goes (worker.finish flight now .failed) front now
      have goes := (worker.finish_failed_goes flight now).trans proceeds
      refine ⟨goes.stage.bound (Stage.isBound_idle _), fun alarm armed => ?_⟩
      obtain ⟨former, member, rfl⟩ := List.mem_map.mp armed
      exact ((hypothesis.2 former (List.mem_filter.mp member).1).orphan flight now).keep proceeds
  | expire _ fewer hypothesis =>
      exact ⟨hypothesis.1, fun alarm armed => hypothesis.2 alarm (fewer.subset armed)⟩

/-- A timer that outlived a pass with something else in front is void, unless the engine was
lost meanwhile and both the pass that armed the timer and all that completed since were of the
first generation of their engines. -/
theorem awaits_iff_rebuilt (clocked : Clocked config timing activities began worker alarms)
    (armed : alarm ∈ alarms) (overtaken : alarm.IsOvertaken) :
    worker.awaits alarm.timer = true ↔
      .failed ∈ alarm.since ∧ alarm.origin.generation = 1 ∧
        ∀ report, .landed report ∈ alarm.since → report.generation = 1 := by
  have sound := clocked.isSound.2 alarm armed
  obtain ⟨foreign, landed, other⟩ := overtaken.exists_landed
  simp only [awaits, Bool.and_eq_true, decide_eq_true_eq]
  constructor
  · rintro ⟨series, _⟩
    have same := sound.lasting.mp series
    have disloyal : ¬ alarm.IsLoyal := fun loyal =>
      other (loyal foreign landed (same foreign landed))
    have lost : .failed ∈ alarm.since := by
      by_contra kept
      exact disloyal (sound.attached kept).1
    rcases (sound.orphaned lost).2 with ⟨loyal, _⟩ | ⟨report, reported, first⟩
    · exact absurd loyal disloyal
    · have began := (same report reported).symm.trans first
      exact ⟨lost, began, fun report' reported' => (same report' reported').trans began⟩
  · rintro ⟨lost, began, first⟩
    refine ⟨sound.lasting.mpr fun report reported => (first report reported).trans began.symm, ?_⟩
    rw [(sound.orphaned lost).1]
    rfl

end Clock

section Rebuilt

open Ledger (skipConfig skipHost)

/-- Which application is in front is never remembered. -/
def forgetful : Timing := { appIdTtl := 0 }

def windowless : Host := .serving (.node {} []) [] true

/-- A worker is notified and looks up what is in front. -/
def firstNotified : Worker :=
  ((start skipConfig forgetful (.empty 1) 0).receive 0 .notified).proceed (inFront "a") 0

/-- A pass starts. -/
def firstAnswered : Worker :=
  (firstNotified.answered (some ⟨"a", some "a.A", 0⟩) "t" 0).proceed (inFront "a") 0

def firstFlight : Flight := firstAnswered.stage.flight?.getD failingFlight

/-- The pass finds a button, and so there will be another look. -/
def firstLanded : Worker := firstAnswered.finish firstFlight 1 (.landed skipHost (.fresh 0))

/-- The next pass starts. -/
def secondNotified : Worker :=
  ((firstLanded.proceed (inFront "a") 1).receive 2 .notified).proceed (inFront "a") 2

def secondFlight : Flight := secondNotified.stage.flight?.getD failingFlight

/-- The pass comes to grief. -/
def secondFailed : Worker := (secondNotified.finish secondFlight 3 .failed).proceed (inFront "a") 3

/-- Something else is in front. -/
def thirdNotified : Worker := (secondFailed.receive 4 .notified).proceed (inFront "b") 4

def thirdAnswered : Worker :=
  (thirdNotified.answered (some ⟨"b", some "b.B", 0⟩) "t" 4).proceed (inFront "b") 4

def thirdFlight : Flight := thirdAnswered.stage.flight?.getD failingFlight

def thirdLanded : Worker := thirdAnswered.finish thirdFlight 5 (.landed windowless (.fresh 0))

/-- The timers that the first pass armed. -/
def firstAlarms : List Alarm :=
  firstLanded.arm 1 (firstFlight.outcome skipHost (.fresh 0)).2.1
    (firstFlight.outcome skipHost (.fresh 0)).2.2

/-- What is left of them when the engine is lost. -/
def orphanedAlarms : List Alarm :=
  (firstAlarms.filter (secondNotified.awaits ·.timer)).map Alarm.orphan

/-- The timers after a pass with something else in front. -/
def lateAlarms : List Alarm :=
  orphanedAlarms.map (·.note (thirdFlight.outcome windowless (.fresh 0)).2.1) ++
    thirdLanded.arm 5 (thirdFlight.outcome windowless (.fresh 0)).2.1
      (thirdFlight.outcome windowless (.fresh 0)).2.2

theorem firstAnswered_clocked : Clocked skipConfig forgetful (.empty 1) 0 firstAnswered [] := by
  have asked : Clocked skipConfig forgetful (.empty 1) 0 firstNotified [] :=
    .work .start (.receive rfl (inFront "a") 0 .notified) (World.countP_received _ _ _ _)
  exact .work asked (.answer (some ⟨"a", some "a.A", 0⟩) (inFront "a") 0)
    (World.countP_departures _ _)

theorem flies_of_isSome {worker : Worker} (aloft : worker.stage.flight?.isSome) :
    worker.stage = .flying (worker.stage.flight?.getD failingFlight) := by
  cases stage : worker.stage with
  | flying flight => rfl
  | idle engine | lookingUp engine departure =>
      rw [stage] at aloft
      cases aloft

theorem secondNotified_clocked :
    Clocked skipConfig forgetful (.empty 1) 0 secondNotified firstAlarms := by
  have flying : firstAnswered.stage = .flying firstFlight := flies_of_isSome (by decide +kernel)
  have landed := firstAnswered_clocked.land flying skipHost (.fresh 0) (inFront "a") 1
  rw [List.map_nil, List.nil_append] at landed
  exact landed.work (.receive (by decide +kernel) (inFront "a") 2 .notified)
    (World.countP_received _ _ _ _)

theorem thirdAnswered_clocked :
    Clocked skipConfig forgetful (.empty 1) 0 thirdAnswered orphanedAlarms := by
  have flying : secondNotified.stage = .flying secondFlight := flies_of_isSome (by decide +kernel)
  have failed : Clocked skipConfig forgetful (.empty 1) 0 secondFailed orphanedAlarms :=
    secondNotified_clocked.fail flying (inFront "a") 3
  have asked : Clocked skipConfig forgetful (.empty 1) 0 thirdNotified orphanedAlarms :=
    failed.work (.receive (by decide +kernel) (inFront "b") 4 .notified)
      (World.countP_received _ _ _ _)
  exact asked.work (.answer (some ⟨"b", some "b.B", 0⟩) (inFront "b") 4)
    (World.countP_departures _ _)

theorem thirdLanded_clocked :
    Clocked skipConfig forgetful (.empty 1) 0 (thirdLanded.proceed (inFront "b") 5) lateAlarms := by
  have flying : thirdAnswered.stage = .flying thirdFlight := flies_of_isSome (by decide +kernel)
  exact thirdAnswered_clocked.land flying windowless (.fresh 0) (inFront "b") 5

/-- The timer of the first pass outlived the pass with something else in front. -/
theorem exists_lateAlarm : ∃ alarm ∈ lateAlarms, alarm.IsOvertaken ∧
    (thirdLanded.proceed (inFront "b") 5).awaits alarm.timer = true := by
  decide +kernel

/-- It is not void, since the engine was lost and both passes were of the first generation of
their engines. -/
theorem lateAlarm_rebuilt : ∃ alarm ∈ lateAlarms, alarm.IsOvertaken ∧
    .failed ∈ alarm.since ∧ alarm.origin.generation = 1 ∧
      ∀ report, .landed report ∈ alarm.since → report.generation = 1 := by
  obtain ⟨alarm, armed, overtaken, awaited⟩ := exists_lateAlarm
  exact ⟨alarm, armed, overtaken,
    (awaits_iff_rebuilt thirdLanded_clocked armed overtaken).mp awaited⟩

/-- A timer may outlive a pass with something else in front. -/
theorem overtaken_timer_awaited :
    ¬ ∀ (config : EngineConfig) (timing : Timing) (activities : ActivityTable) (began : Time)
      (worker : Worker) (alarms : List Alarm),
      Clocked config timing activities began worker alarms →
      ∀ alarm ∈ alarms, alarm.IsOvertaken → worker.awaits alarm.timer = false := by
  intro always
  obtain ⟨alarm, armed, overtaken, awaited⟩ := exists_lateAlarm
  have void := always _ _ _ _ _ _ thirdLanded_clocked alarm armed overtaken
  rw [awaited] at void
  cases void

end Rebuilt

end Worker

end TreeSelector

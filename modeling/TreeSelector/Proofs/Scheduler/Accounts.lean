import TreeSelector.Proofs.Scheduler.Serial

/-!
# Accounts of notifications

Each notification that is let in is reported by one pass.  Until then it waits in the queue
or belongs to the batch of the pass that is about to start or in flight; it is lost only if
that pass comes to grief, or does not start since nothing is known to be in front.  And
none waits unnoticed: as long as something is in the queue, there is a wake-up to take
notice of, or a pass is asked for.
-/

namespace TreeSelector

/-- How many notifications there are in a batch, if there is one. -/
def Batch.count (batch : Option Batch) : Nat := (batch.map (·.events)).getD 0

/-- How many notifications belong to the pass that is about to start or in flight. -/
def Stage.carried : Stage → Nat
  | idle _ => 0
  | lookingUp _ departure => Batch.count departure.batch
  | flying flight => Batch.count flight.request.batch

/-- What becomes of notifications. -/
inductive Happening where
  /-- A notification is put into the queue. -/
  | admitted
  /-- A pass is over. -/
  | reported (report : PassReport)
  /-- A pass came to grief. -/
  | failed (request : PassRequest)
  /-- A pass does not start, since nothing is known to be in front. -/
  | stranded (departure : Departure)

namespace Happening

/-- How many notifications are reported. -/
def reports : Happening → Nat
  | reported report => report.events
  | _ => 0

end Happening

/-- What happened so far with notifications, the oldest first. -/
abbrev Account : Type := List Happening

namespace Account

def reports (account : Account) : Nat := (account.map Happening.reports).sum

section Sums

variable (earlier later : Account)

end Sums

end Account

section Queues

namespace NotificationQueue

variable (queue : NotificationQueue)

/-- Appends a notification; nobody is woken up yet. -/
def append (notification : Notification) : NotificationQueue :=
  { queue with waiting := queue.waiting ++ [notification] }

/-- Wakes up whoever waits, or keeps the wake-up for later. -/
def wake : NotificationQueue :=
  if queue.attended then { queue with attended := false, roused := true }
  else { queue with signalled := true }

theorem push_eq (notification : Notification) :
    queue.push notification = (queue.append notification).wake := rfl

end NotificationQueue

end Queues

/-- What becomes of a pass that is about to start once it is settled what is in front. -/
def Departure.resolution (departure : Departure) : (current : Option Identity) → Account
  | some _ => []
  | none => [.stranded departure]

namespace Worker

/-- Lets a notification into the queue or drops it; nobody is woken up yet. -/
def enqueue (worker : Worker) (notification : Notification) : Worker :=
  let (accepted, throttle) := worker.throttle.accept notification
  let queue := if accepted then worker.queue.append notification else worker.queue
  { worker with throttle, queue }

def wake (worker : Worker) : Worker := { worker with queue := worker.queue.wake }

/-- To submit a notification is to put it into the queue and to wake up whoever waits. -/
theorem submit_eq (worker : Worker) (notification : Notification) :
    worker.submit notification =
      let accepted := (worker.throttle.accept notification).1
      let queued := worker.enqueue notification
      (accepted, if accepted then queued.wake else queued) := by
  simp only [submit, enqueue]
  split <;> rfl

/-- What may happen next to a worker, whatever surrounds it, while for some notifications in
its queue nobody was woken up yet.  It takes something in and goes on in two steps, and
notifications may arrive before, between and after them. -/
inductive Move (worker : Worker) : (owed : Nat) → Account → Worker → (owed' : Nat) → Prop where
  | drop {owed : Nat} {notification : Notification}
      (dropped : (worker.throttle.accept notification).1 = false) :
      Move worker owed [] (worker.enqueue notification) owed
  | enqueue {owed : Nat} {notification : Notification}
      (accepted : (worker.throttle.accept notification).1 = true) :
      Move worker owed [.admitted] (worker.enqueue notification) (owed + 1)
  | wake {owed : Nat} : Move worker (owed + 1) [] worker.wake owed
  | listen {owed : Nat} : Move worker owed [] worker.listen owed
  | receive {owed : Nat} (now : Time) (message : Message) :
      Move worker owed [] (worker.receive now message) owed
  | proceed {owed : Nat} (front : Foreground) (now : Time) :
      Move worker owed [] (worker.proceed front now) owed
  | answer {owed : Nat} {engine : Engine} {departure : Departure}
      (looking : worker.stage = .lookingUp engine departure) (answer : Option Identity)
      (tree : String) (now : Time) :
      Move worker owed (departure.resolution (worker.learnFront departure answer).tracker.current)
        (worker.answered answer tree now) owed
  | land {owed : Nat} {flight : Flight} (flying : worker.stage = .flying flight) (host : Host)
      (session : Session) (now : Time) :
      Move worker owed
        [.reported ((flight.engine.look host flight.request flight.begun).answer session).2.1]
        (worker.finish flight now (.landed host session)) owed
  | fail {owed : Nat} {flight : Flight} (flying : worker.stage = .flying flight) (now : Time) :
      Move worker owed [.failed flight.request] (worker.finish flight now .failed) owed

/-- A worker that was started at some time, what has happened since with notifications, and
for how many of these nobody was woken up yet. -/
inductive Tracked (config : EngineConfig) (timing : Timing) (activities : ActivityTable)
    (began : Time) : Worker → (owed : Nat) → Account → Prop where
  | start : Tracked config timing activities began (.start config timing activities began) 0 []
  | move {worker after : Worker} {owed owed' : Nat} {account later : Account} :
      Tracked config timing activities began worker owed account →
      worker.Move owed later after owed' →
      Tracked config timing activities began after owed' (account ++ later)

section Keeping

/-- A worker has the same notifications as before and is asked no less for a pass. -/
structure Carries (before after : Worker) : Prop where
  carried : after.stage.carried = before.stage.carried
  queue : after.queue = before.queue
  pending : before.pending.isSome → after.pending.isSome

variable {worker : Worker}

theorem Carries.refl (worker : Worker) : worker.Carries worker := ⟨rfl, rfl, id⟩

theorem Carries.trans {first second third : Worker} (front : first.Carries second)
    (back : second.Carries third) : first.Carries third where
  carried := back.carried.trans front.carried
  queue := back.queue.trans front.queue
  pending := back.pending ∘ front.pending

end Keeping

section Departures

variable {worker : Worker}

end Departures

section Balance

variable {config : EngineConfig} {timing : Timing} {activities : ActivityTable} {began : Time}
  {worker after : Worker} {owed owed' : Nat} {account later : Account}

/-- The notifications that were let in and are neither reported nor lost. -/
def held (worker : Worker) : Nat := worker.stage.carried + worker.queue.size

/-- What is in the queue does not wait unnoticed. -/
def IsVigilant (worker : Worker) (owed : Nat) : Prop :=
  worker.queue.waiting ≠ [] → worker.queue.calls = true ∨ worker.pending.isSome ∨ 0 < owed

theorem IsVigilant.keep (vigilant : worker.IsVigilant owed) (queue : after.queue = worker.queue)
    (pending : worker.pending.isSome → after.pending.isSome) : after.IsVigilant owed := by
  intro waiting
  rw [queue] at waiting ⊢
  exact (vigilant waiting).imp_right (.imp_left pending)

end Balance

section Steps

variable {config : EngineConfig} {timing : Timing} {activities : ActivityTable} {began : Time}
  {worker after : Worker} {owed : Nat} {account : Account} {history occurrences : List Occurrence}

theorem answered_of_awake (awake : worker.stage.isLookingUp = false) (answer : Option Identity)
    (tree : String) (now : Time) : worker.answered answer tree now = worker := by
  simp only [answered]
  split
  · rename_i stage
    rw [stage] at awake
    cases awake
  · rfl

/-- Whatever happens to a worker in one go consists of moves. -/
theorem Tracked.step (tracked : Tracked config timing activities began worker 0 account)
    (step : worker.Step occurrences after) :
    ∃ account, Tracked config timing activities began after 0 account := by
  cases step with
  | submit notification =>
      rw [submit_eq]
      cases accepted : (worker.throttle.accept notification).1 with
      | true => exact ⟨_, .move (.move tracked (.enqueue accepted)) .wake⟩
      | false => exact ⟨_, .move tracked (.drop accepted)⟩
  | listen => exact ⟨_, .move tracked .listen⟩
  | receive awake front now message =>
      exact ⟨_, .move (.move tracked (.receive now message)) (.proceed front now)⟩
  | answer answer front now =>
      cases stage : worker.stage with
      | lookingUp engine departure =>
          exact ⟨_, .move (.move tracked (.answer stage answer front.tree now))
            (.proceed front now)⟩
      | idle engine =>
          rw [answered_of_awake (by rw [stage]; rfl)]
          exact ⟨_, .move tracked (.proceed front now)⟩
      | flying flight =>
          rw [answered_of_awake (by rw [stage]; rfl)]
          exact ⟨_, .move tracked (.proceed front now)⟩
  | finish flying ending front now =>
      cases ending with
      | landed host session =>
          exact ⟨_, .move (.move tracked (.land flying host session now)) (.proceed front now)⟩
      | failed => exact ⟨_, .move (.move tracked (.fail flying now)) (.proceed front now)⟩

/-- However a worker is reached, there is an account of its notifications. -/
theorem Reached.tracked (reached : Reached config timing activities began worker history) :
    ∃ account, Tracked config timing activities began worker 0 account := by
  induction reached with
  | start => exact ⟨_, .start⟩
  | step earlier step hypothesis =>
      obtain ⟨account, tracked⟩ := hypothesis
      exact tracked.step step

end Steps

section Accounts

variable {config : EngineConfig} {timing : Timing} {activities : ActivityTable} {began : Time}
  {worker : Worker} {owed : Nat} {account : Account}

end Accounts

end Worker

end TreeSelector

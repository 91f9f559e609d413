import TreeSelector.Notification.Batch

/-!
# The notification queue

Notifications wait here until the next look at the tree takes all of them.
However many are added, one wake-up is enough: whoever waits for one is woken up
by the first notification, and what is added while nobody waits is signalled
once.
-/

namespace TreeSelector

structure NotificationQueue where
  /-- What waits, the oldest first. -/
  waiting : List Notification := []
  /-- Whether somebody waits for a wake-up. -/
  attended : Bool := false
  /-- Whether whoever waited was woken up and has not taken notice yet. -/
  roused : Bool := false
  /-- Whether something was added while nobody waited. -/
  signalled : Bool := false

namespace NotificationQueue

def size (queue : NotificationQueue) : Nat := queue.waiting.length

def push (queue : NotificationQueue) (notification : Notification) : NotificationQueue :=
  let waiting := queue.waiting ++ [notification]
  if queue.attended then { queue with waiting, attended := false, roused := true }
  else { queue with waiting, signalled := true }

def drain (queue : NotificationQueue) : Option Batch × NotificationQueue :=
  (Batch.ofNotifications? queue.waiting, { queue with waiting := [] })

/-- Whether there is a wake-up to take notice of. -/
def calls (queue : NotificationQueue) : Bool := queue.roused || queue.signalled

/-- Takes notice of a wake-up. -/
def answer (queue : NotificationQueue) : NotificationQueue :=
  if queue.roused then { queue with roused := false } else { queue with signalled := false }

def attend (queue : NotificationQueue) : NotificationQueue := { queue with attended := true }

/-- Stops waiting; a wake-up that was not taken notice of is kept. -/
def leave (queue : NotificationQueue) : NotificationQueue :=
  { queue with
    attended := false
    roused := false
    signalled := queue.signalled || queue.roused }

end NotificationQueue

end TreeSelector

import TreeSelector.Time
import TreeSelector.Tree.Layout

/-!
# Notifications

A host notifies of changes to its tree.  Notifications that piled up are reduced
to a batch, which keeps what one look at the tree needs to know of them: the
notifications of the last key in a row, and the last change of a window.
-/

namespace TreeSelector

inductive ChangeKind where
  /-- A window or an activity came to the front. -/
  | state
  /-- Something inside a window changed. -/
  | content
  deriving DecidableEq, Repr

/-- A sign that the tree may have changed. -/
structure Notification where
  kind : ChangeKind
  appId : String
  className : Option String := none
  /-- The node that changed. -/
  source : Option NodeId := none
  time : Time
  deriving DecidableEq

namespace Notification

/-- Whether two notifications are of the same kind, application and class. -/
def sharesKey (first second : Notification) : Bool :=
  first.kind = second.kind && first.appId == second.appId &&
    first.className == second.className

/-- The application and the class that came to the front, where both are known. -/
def activity (notification : Notification) : Option (String × String) :=
  notification.className.map fun className => (notification.appId, className)

end Notification

/-- What is left of the notifications for one look at the tree. -/
structure Batch where
  events : Nat
  kind : ChangeKind
  appId : String
  className : Option String
  /-- The sources of the last two notifications, as far as they share the last key
  and have one; the older comes first. -/
  sources : List NodeId
  /-- Whether the notifications did not all share one key. -/
  mixed : Bool
  /-- What the last window change brought to the front. -/
  activity : Option (String × String)
  deriving DecidableEq

namespace Batch

/-- The number of notifications at the end of a list that share the key of its last
one. -/
def runLength (events : List Notification) (last : Notification) : Nat :=
  (events.reverse.takeWhile (·.sharesKey last)).length

/-- Reduces notifications, the oldest first, to a batch. -/
def ofNotifications? (events : List Notification) : Option Batch :=
  events.getLast?.map fun last =>
    let run := runLength events last
    { events := events.length
      kind := last.kind
      appId := last.appId
      className := last.className
      sources := (events.drop (events.length - min run 2)).filterMap (·.source)
      mixed := run < events.length
      activity := (events.reverse.find? (·.kind = .state)).bind (·.activity) }

/-- The only node a batch is about: the notifications are all content changes of one
key, and the last of them agree on their source. -/
def soleSource? (batch : Batch) : Option NodeId :=
  if batch.mixed || batch.kind ≠ .content then none
  else
    match batch.sources with
    | [only] => some only
    | [older, latest] => if older = latest then some latest else none
    | _ => none

end Batch

end TreeSelector

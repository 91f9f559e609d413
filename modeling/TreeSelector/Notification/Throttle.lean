import TreeSelector.Notification.Batch

/-!
# Throttling

Content changes come in bursts.  While the screen is settled, those that follow
one another too closely are dropped.  The screen is settled once some time has
passed since the application in front changed and since a rule triggered.
-/

namespace TreeSelector

structure Throttle where
  /-- When the last content change was let through. -/
  lastContent : Option Time := none
  /-- When the application in front changed last, as soon as one is known. -/
  appChangedAt : Option Time := none
  triggeredAt : Option Time := none
  deriving DecidableEq

namespace Throttle

/-- Content changes closer together than this are dropped on a settled screen. -/
def contentInterval : Nat := 100

/-- For how long the screen is unsettled after the application in front changed. -/
def appChangeGrace : Nat := 5000

/-- For how long the screen is unsettled after a rule triggered. -/
def triggerGrace : Nat := 3000

def isSettled (throttle : Throttle) (now : Time) : Bool :=
  throttle.appChangedAt.isSome && !now.isWithin appChangeGrace throttle.appChangedAt &&
    !now.isWithin triggerGrace throttle.triggeredAt

def drops (throttle : Throttle) (notification : Notification) : Bool :=
  notification.kind = .content && throttle.isSettled notification.time &&
    notification.time.isWithin contentInterval throttle.lastContent

def accept (throttle : Throttle) (notification : Notification) : Bool × Throttle :=
  if throttle.drops notification then (false, throttle)
  else
    match notification.kind with
    | .state => (true, throttle)
    | .content => (true, { throttle with lastContent := some notification.time })

def appChanged (throttle : Throttle) (now : Time) : Throttle :=
  { throttle with appChangedAt := some now }

def triggered (throttle : Throttle) (now : Time) : Throttle :=
  { throttle with triggeredAt := some now }

end Throttle

end TreeSelector

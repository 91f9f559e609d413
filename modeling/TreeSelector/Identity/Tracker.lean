import TreeSelector.Time

/-!
# What is in front

An identity says which application and which activity are in front.  A tracker
keeps the current one as reports come in: an activity was entered, a poll
confirms what is in front, or the application in front was observed.
-/

namespace TreeSelector

structure Identity where
  appId : String
  activityId : Option String := none
  /-- How often the same activity was entered again. -/
  number : Nat := 0
  deriving DecidableEq, Repr

namespace Identity

def isAt (identity : Identity) (appId : String) (activityId : Option String) : Bool :=
  identity.appId == appId && identity.activityId == activityId

end Identity

structure IdentityTracker where
  current : Option Identity := none
  /-- When the current identity was set. -/
  updatedAt : Option Time := none
  deriving DecidableEq

namespace IdentityTracker

/-- Entering the same activity again within this time is no change. -/
def duplicateWindow : Nat := 1000

/-- The activity reported, or else the one last known for the same application. -/
def knownActivity (tracker : IdentityTracker) (appId : String) (activityId : Option String) :
    Option String :=
  activityId.or <|
    match tracker.current with
    | some current => if current.appId = appId then current.activityId else none
    | none => none

def isAt (tracker : IdentityTracker) (appId : String) (activityId : Option String) : Bool :=
  tracker.current.any (·.isAt appId activityId)

def set (identity : Identity) (now : Time) : IdentityTracker := ⟨some identity, some now⟩

/-- An activity was reported to come to the front.  The same one again counts as
entered again unless that is too soon. -/
def enter (tracker : IdentityTracker) (appId : String) (activityId : Option String)
    (now : Time) : Bool × IdentityTracker :=
  let activityId := tracker.knownActivity appId activityId
  match tracker.current with
  | some current =>
      if current.isAt appId activityId then
        if now.isWithin duplicateWindow tracker.updatedAt then (false, tracker)
        else (true, set { current with number := current.number + 1 } now)
      else (true, set { appId, activityId } now)
  | none => (true, set { appId, activityId } now)

/-- A poll tells what is in front.  If that is no news, nothing was entered. -/
def confirm (tracker : IdentityTracker) (appId : String) (activityId : Option String)
    (now : Time) : Bool × IdentityTracker :=
  let activityId := tracker.knownActivity appId activityId
  if tracker.isAt appId activityId then (false, tracker)
  else (true, set { appId, activityId } now)

/-- All that is known is which application is in front. -/
def observe (tracker : IdentityTracker) (appId : String) (now : Time) :
    Bool × IdentityTracker :=
  if tracker.current.any (·.appId == appId) then (false, tracker)
  else (true, set { appId } now)

end IdentityTracker

end TreeSelector

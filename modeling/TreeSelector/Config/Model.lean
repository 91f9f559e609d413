/-!
# Configuration

Which rules exist, when they may run, and how long the engine waits for what.
Durations are in milliseconds.
-/

namespace TreeSelector

/-- Which change of what is in front starts the counters and windows of a rule anew. -/
inductive ResetScope where
  | app
  /-- Every change of the activity as well, even a return to the same one. -/
  | activity
  deriving DecidableEq, Repr, Inhabited

inductive RuleAction where
  | click | longClick | back | none
  deriving DecidableEq, Repr, Inhabited

structure RuleConfig where
  key : String
  name : Option String := none
  category : Option String := none
  /-- The application the rule is for; without one it is for all. -/
  appId : Option String := none
  selector : String
  /-- Selectors that must not match where the rule does. -/
  excludeSelectors : List String := []
  /-- Beginnings of activity names; one that begins with a dot is continued from the
  application's name. -/
  activityIds : List String := []
  excludeActivityIds : List String := []
  excludeAppIds : List String := []
  /-- How long after the activity came to the front the rule becomes eligible. -/
  matchDelay : Option UInt64 := none
  /-- How long after a match the action is due, if the selector still matches then. -/
  actionDelay : Option UInt64 := none
  /-- How long the rule rests after a trigger. -/
  actionCooldown : Option UInt64 := none
  /-- How often the rule may trigger. -/
  actionMaximum : Option UInt32 := none
  /-- How long after the activity came to the front the rule may match at all. -/
  matchTime : Option UInt64 := none
  /-- How long after the activity came to the front a miss asks for another look. -/
  forcedTime : Option UInt64 := none
  resetMatch : ResetScope := .app
  quickFind : Bool := false
  fastQuery : Bool := false
  action : RuleAction := .click
  /-- Rules of lower order come first. -/
  order : Int32 := 0
  enable : Bool := true
  deriving DecidableEq, Inhabited

/-- The rules and what switches them off. -/
structure EngineConfig where
  /-- When off, no rule is looked at. -/
  enableMatch : Bool := true
  disabledCategories : List String := []
  disabledRules : List String := []
  /-- Notifications from these applications are dropped on arrival. -/
  ignoredAppIds : List String := []
  rules : List RuleConfig := []
  deriving DecidableEq, Inhabited

namespace EngineConfig

/-- Whether a rule is switched off, whatever its selector. -/
def isExcluded (config : EngineConfig) (rule : RuleConfig) : Bool :=
  !rule.enable || config.disabledRules.contains rule.key ||
    rule.category.any config.disabledCategories.contains

def isIgnoredApp (config : EngineConfig) (appId : String) : Bool :=
  config.ignoredAppIds.contains appId

end EngineConfig

structure Timing where
  /-- Until the look that follows an action or a forced miss. -/
  recheckDelay : UInt64 := 300
  /-- For the authoritative answer to what is in front. -/
  identityTimeout : UInt64 := 100
  /-- For how long a cheap answer to which application is in front is used again. -/
  appIdTtl : UInt64 := 50
  /-- For how long after a trigger further looks are scheduled. -/
  triggerRecheckWindow : UInt64 := 3000
  /-- How many pairs of application and class are remembered. -/
  activityCapacity : UInt64 := 128
  deriving DecidableEq, Inhabited

end TreeSelector

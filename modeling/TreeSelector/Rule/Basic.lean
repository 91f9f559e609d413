import TreeSelector.Config.Model
import TreeSelector.Grammar.Selector
import TreeSelector.Identity.Tracker
import TreeSelector.Matching
import TreeSelector.Typing

/-!
# Rules

A rule is a selector with conditions on when it may be tried and what happens
once it matches.  Its definition stays the same for as long as a configuration
is in force; its progress is what changes.
-/

namespace TreeSelector

/-- A configured rule with its selectors read. -/
structure RuleDefinition where
  config : RuleConfig
  selector : Chain
  excludeSelectors : List Chain
  /-- Why the first of the selectors with a type error has one. -/
  checkError : Option SelectorError
  /-- Whether the configuration switches the rule off. -/
  excluded : Bool

namespace RuleDefinition

/-- Reads all selectors up to the first that cannot be read. -/
def readAll : List String → Except SelectorError (List Chain)
  | [] => .ok []
  | source :: sources => do
      let chain ← Chain.parse source
      let chains ← readAll sources
      return chain :: chains

def firstTypeError : List Chain → Option SelectorError
  | [] => none
  | chain :: chains =>
      match chain.checkTypes with
      | .error error => some error
      | .ok () => firstTypeError chains

/-- Reads the selectors of a rule; one that cannot be read rejects it. -/
def compile (config : RuleConfig) (engine : EngineConfig) :
    Except SelectorError RuleDefinition := do
  let selector ← Chain.parse config.selector
  let excludeSelectors ← readAll config.excludeSelectors
  return {
    config, selector, excludeSelectors
    checkError := firstTypeError (selector :: excludeSelectors)
    excluded := engine.isExcluded config }

def key (rule : RuleDefinition) : String := rule.config.key

/-- How the selectors of a rule may be looked up. -/
def options (rule : RuleDefinition) : QueryOptions :=
  ⟨rule.config.quickFind, rule.config.fastQuery⟩

/-- Whether a memory of the tree pays for any of the selectors. -/
def revisitsTree (rule : RuleDefinition) : Bool :=
  rule.selector.revisitsTree || rule.excludeSelectors.any Chain.revisitsTree

/-- Whether an activity begins as given; a beginning that starts with a dot
continues the name of the application. -/
def activityBegins (appId activityId beginning : String) : Bool :=
  Text.beginsWith activityId
    (if Text.beginsWith beginning "." then appId ++ beginning else beginning)

/-- Whether a rule is meant for what is in front. -/
def appliesTo (rule : RuleDefinition) (identity : Identity) : Bool :=
  rule.config.appId.all (· == identity.appId) &&
    !rule.config.excludeAppIds.contains identity.appId &&
    match identity.activityId with
    | none => true
    | some activityId =>
        let begins := activityBegins (rule.config.appId.getD identity.appId) activityId
        !rule.config.excludeActivityIds.any begins &&
          (rule.config.activityIds.isEmpty || rule.config.activityIds.any begins)

end RuleDefinition

/-- Stands for the pending delays of a rule: each reset of the rule makes a new
token and so the old one void. -/
structure TimerToken where
  /-- The number of the rule set. -/
  series : Nat
  /-- The number of the rule in its set. -/
  slot : Nat
  /-- How often the rule was reset. -/
  epoch : Nat
  deriving DecidableEq, Repr

/-- What changes about a rule. -/
structure RuleProgress where
  token : TimerToken
  /-- When the windows of the rule began. -/
  changedAt : Time
  /-- When a match began to wait for its action. -/
  delayStarted : Option Time := none
  /-- How often the rule triggered. -/
  actionCount : Nat := 0
  /-- When the action was dispatched that triggered last. -/
  lastTrigger : Option Time := none
  /-- When the action was dispatched that has not been reported yet. -/
  acting : Option Time := none
  deriving DecidableEq

structure Rule where
  definition : RuleDefinition
  progress : RuleProgress

inductive DisabledReason where
  /-- The configuration switches the rule off. -/
  | excluded
  /-- A selector has a type error. -/
  | checkFailed
  /-- The rule triggered as often as it may. -/
  | capReached
  deriving DecidableEq, Repr

inductive RuleStatus where
  | disabled (reason : DisabledReason)
  /-- The time in which the rule may match is over. -/
  | expired
  | pendingMatchDelay
  /-- An action was dispatched and has not been reported yet. -/
  | acting
  | pendingActionDelay
  /-- The rule rests after a trigger. -/
  | triggered
  | ready
  deriving DecidableEq, Repr

namespace RuleStatus

def title : RuleStatus → String
  | disabled .excluded => "Disabled(Excluded)"
  | disabled .checkFailed => "Disabled(CheckFailed)"
  | disabled .capReached => "Disabled(CapReached)"
  | expired => "Expired"
  | pendingMatchDelay => "PendingMatchDelay"
  | acting => "Acting"
  | pendingActionDelay => "PendingActionDelay"
  | triggered => "Triggered"
  | ready => "Ready"

end RuleStatus

/-- What came of looking for a rule's selector. -/
inductive RuleMatch where
  | miss
  /-- The selector matched, but so did one that excludes it. -/
  | excluded
  | hit (node : NodeId)
  deriving DecidableEq, Repr

namespace Rule

def key (rule : Rule) : String := rule.definition.key

def config (rule : Rule) : RuleConfig := rule.definition.config

def token (rule : Rule) : TimerToken := rule.progress.token

def start (definition : RuleDefinition) (token : TimerToken) (now : Time) : Rule :=
  ⟨definition, { token, changedAt := now }⟩

section Status

def readyAt (rule : Rule) : Time :=
  rule.progress.changedAt + (rule.config.matchDelay.getD 0).toNat

/-- When an action is due whose wait begins at a given moment. -/
def actionDueFrom (rule : Rule) (start : Time) : Time :=
  start + (rule.config.actionDelay.getD 0).toNat

/-- When the action is due that a match waits for. -/
def actionDeadline (rule : Rule) : Option Time :=
  rule.progress.delayStarted.map rule.actionDueFrom

def isCapReached (rule : Rule) : Bool :=
  rule.config.actionMaximum.any (·.toNat ≤ rule.progress.actionCount)

def isExpired (rule : Rule) (now : Time) : Bool :=
  rule.config.matchTime.any (rule.progress.changedAt + ·.toNat ≤ now)

def isWaiting (rule : Rule) (now : Time) : Bool := rule.actionDeadline.any (now < ·)

def isResting (rule : Rule) (now : Time) : Bool :=
  match rule.progress.lastTrigger, rule.config.actionCooldown with
  | some time, some cooldown => now < time + cooldown.toNat
  | _, _ => false

def status (rule : Rule) (now : Time) : RuleStatus :=
  if rule.definition.excluded then .disabled .excluded
  else if rule.definition.checkError.isSome then .disabled .checkFailed
  else if rule.isCapReached then .disabled .capReached
  else if rule.isExpired now then .expired
  else if now < rule.readyAt then .pendingMatchDelay
  else if rule.progress.acting.isSome then .acting
  else if rule.isWaiting now then .pendingActionDelay
  else if rule.isResting now then .triggered
  else .ready

/-- Whether a match has waited long enough and is to be looked at again. -/
def isActionDue (rule : Rule) (now : Time) : Bool := rule.actionDeadline.any (· ≤ now)

/-- Whether a match has to wait for its action first. -/
def needsActionDelay (rule : Rule) : Bool :=
  rule.config.actionDelay.any (0 < ·) && rule.progress.delayStarted.isNone

/-- Whether a miss asks for another look. -/
def isForced (rule : Rule) (now : Time) : Bool :=
  rule.config.forcedTime.any (now < rule.progress.changedAt + ·.toNat)

/-- Whether a pending delay of the rule would be made void by a reset. -/
def isPending (rule : Rule) (now : Time) : Bool :=
  rule.status now = .pendingMatchDelay || rule.status now = .pendingActionDelay

end Status

section Matching

/-- Whether one of some chains matches below a node. -/
def anyMatches (view : View) (options : QueryOptions) (node : NodeId) :
    List Chain → Reading Bool
  | [] => return false
  | chain :: chains => do
      if (← chain.query view options node).isSome then return true
      anyMatches view options node chains

/-- Looks for the rule's selector below some nodes in turn.  Where it matches first,
no excluding selector may match. -/
def query (rule : Rule) (view : View) : List NodeId → Reading RuleMatch
  | [] => return .miss
  | root :: roots => do
      let options := rule.definition.options
      match ← rule.definition.selector.query view options root with
      | none => query rule view roots
      | some node =>
          if ← anyMatches view options root rule.definition.excludeSelectors then
            return .excluded
          return .hit node

end Matching

section Progress

/-- A match begins to wait for its action. -/
def beginActionDelay (rule : Rule) (now : Time) : Rule :=
  { rule with progress.delayStarted := some now }

/-- A match that waited is gone; the next one waits anew. -/
def abandonActionDelay (rule : Rule) : Rule :=
  { rule with progress.delayStarted := none }

/-- The action is dispatched; it counts once it is reported to have succeeded. -/
def dispatch (rule : Rule) (now : Time) : Rule :=
  { rule with progress.delayStarted := none, progress.acting := some now }

/-- The action is reported.  Also tells whether it counts as a trigger. -/
def actionFinished (rule : Rule) (succeeded : Bool) : Bool × Rule :=
  match rule.progress.acting with
  | none => (false, rule)
  | some dispatched =>
      let idle := { rule.progress with acting := none }
      if succeeded then
        (true, { rule with
          progress := { idle with
            actionCount := rule.progress.actionCount + 1
            lastTrigger := some dispatched } })
      else (false, { rule with progress := idle })

/-- Makes pending delays void and starts anew. -/
def reset (rule : Rule) (now : Time) : Rule :=
  let token := { rule.token with epoch := rule.token.epoch + 1 }
  start rule.definition token now

/-- Whether a change of what is in front starts the rule anew. -/
def restartsOn (rule : Rule) (appChanged : Bool) (now : Time) : Bool :=
  appChanged || rule.isPending now || rule.config.resetMatch = .activity

/-- Something else came to the front. -/
def identityChanged (rule : Rule) (appChanged : Bool) (now : Time) : Rule :=
  if rule.restartsOn appChanged now then rule.reset now else rule

end Progress

end Rule

end TreeSelector

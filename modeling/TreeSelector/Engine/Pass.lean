import TreeSelector.Notification.Batch
import TreeSelector.Reading.Remembering
import TreeSelector.Rule.Basic

/-!
# Passes

A pass tries rules in order on a tree.  Of each rule it visits it finds out what
is to become of it; a rule that acts, or that matches a node of an application
that is not in front, is the last one.  What a pass reports and which effects it
has are read off its visits.
-/

namespace TreeSelector

inductive PassTrigger where
  | notification
  /-- A delay of a rule is over. -/
  | delay
  /-- Another look after an action or a miss. -/
  | recheck
  | config
  /-- An earlier pass matched a node of an application that is not in front. -/
  | identityMismatch
  deriving DecidableEq, Repr

structure PassRequest where
  batch : Option Batch
  identity : Identity
  trigger : PassTrigger
  now : Time

/-- An action to be performed. -/
structure ActionRequest where
  rule : String
  node : NodeId
  action : RuleAction
  /-- The generation of what was in front. -/
  generation : Nat
  deriving DecidableEq

/-- What is to be done after a pass. -/
inductive Effect where
  /-- Look again when a rule becomes eligible. -/
  | armMatchDelay (rule : String) (due : Time) (token : TimerToken)
  /-- Look again when the action of a rule is due. -/
  | armActionDelay (rule : String) (due : Time) (token : TimerToken)
  /-- Find out anew what is in front. -/
  | identityMismatch (expected found : String)
  | act (request : ActionRequest)
  /-- Look again soon. -/
  | recheck
  deriving DecidableEq

structure PassReport where
  pass : Nat
  trigger : PassTrigger
  identity : Identity
  generation : Nat
  events : Nat
  sources : Nat
  /-- Whether the whole tree was looked at. -/
  fromRoot : Bool
  /-- The rules that were tried. -/
  evaluated : List String
  matched : List String
  acted : Option String
  mismatch : Bool
  deriving DecidableEq

inductive Finding where
  /-- The rule was not ready. -/
  | skipped
  | missed
  /-- The rule matched a node of another application. -/
  | foreign (appId : String)
  /-- The rule matched, and its action waits. -/
  | waiting (due : Time)
  /-- The rule matched, and its action is dispatched. -/
  | acted (node : NodeId)
  deriving DecidableEq, Repr

namespace Finding

def endsPass : Finding → Bool
  | foreign _ | acted _ => true
  | _ => false

def isMatch : Finding → Bool
  | waiting _ | acted _ => true
  | _ => false

end Finding

/-- A rule as a pass came upon it, and what became of it. -/
structure Visit where
  rule : Rule
  finding : Finding

namespace Visit

def isEvaluated (visit : Visit) : Bool := visit.finding ≠ .skipped

/-- Whether the visit asks for another look: the rule acted, it missed while it is
forced, or it triggered not long ago. -/
def asksAgain (visit : Visit) (now : Time) (window : Nat) : Bool :=
  visit.rule.progress.lastTrigger.any (now < · + window) ||
    match visit.finding with
    | .acted _ => true
    | .missed => visit.rule.isForced now
    | _ => false

def effect? (visit : Visit) (identity : Identity) (generation : Nat) : Option Effect :=
  let key := visit.rule.key
  match visit.finding with
  | .skipped | .missed => none
  | .foreign appId => some (.identityMismatch identity.appId appId)
  | .waiting due => some (.armActionDelay key due visit.rule.token)
  | .acted node => some (.act ⟨key, node, visit.rule.config.action, generation⟩)

end Visit

namespace Rule

/-- What becomes of a rule that matched a node. -/
def settle (rule : Rule) (request : PassRequest) (node : NodeId) (owner : Option String) :
    Rule × Finding :=
  match owner.filter (· ≠ request.identity.appId) with
  | some appId => (rule, .foreign appId)
  | none =>
      if rule.needsActionDelay then
        (rule.beginActionDelay request.now, .waiting (rule.actionDueFrom request.now))
      else (rule.dispatch request.now, .acted node)

/-- What becomes of a rule that matched nothing. -/
def miss (rule : Rule) (now : Time) : Rule × Finding :=
  (if rule.isActionDue now then rule.abandonActionDelay else rule, .missed)

/-- Visits a rule: if it is ready, its selector is looked for below some nodes. -/
def visit (rule : Rule) (host : Host) (request : PassRequest) (roots : List NodeId) :
    Reading (Rule × Finding) := do
  if rule.status request.now = .ready then
    match ← rule.query (host.view rule.definition.revisitsTree) roots with
    | .hit node => return rule.settle request node (← host.readAppId node)
    | .miss | .excluded => return rule.miss request.now
  else return (rule, .skipped)

/-- Visits the rules at some places, up to one that ends the pass.  At a place where there
is no rule the pass breaks off. -/
def visitAll (host : Host) (request : PassRequest) (roots : List NodeId) :
    List Nat → List Rule → Reading (List Rule × List Visit)
  | [], rules => return (rules, [])
  | place :: places, rules => do
      match rules[place]? with
      | none =>
          modify fun session => { session with broken := true }
          return (rules, [])
      | some rule =>
          let (after, finding) ← rule.visit host request roots
          let rules := rules.set place after
          if finding.endsPass then return (rules, [⟨rule, finding⟩])
          let (rules, visits) ← visitAll host request roots places rules
          return (rules, ⟨rule, finding⟩ :: visits)

end Rule

namespace PassReport

/-- The report of a pass before it visited any rule. -/
def opening (request : PassRequest) (pass generation : Nat) : PassReport :=
  { pass, generation
    trigger := request.trigger
    identity := request.identity
    events := (request.batch.map (·.events)).getD 0
    sources := (request.batch.map (·.sources.length)).getD 0
    fromRoot := false
    evaluated := []
    matched := []
    acted := none
    mismatch := false }

/-- The report of a pass that made some visits. -/
def withVisits (report : PassReport) (visits : List Visit) : PassReport :=
  { report with
    evaluated := (visits.filter (·.isEvaluated)).map (·.rule.key)
    matched := (visits.filter (·.finding.isMatch)).map (·.rule.key)
    acted := visits.findSome? fun visit =>
      match visit.finding with
      | .acted _ => some visit.rule.key
      | _ => none
    mismatch := visits.any fun visit =>
      match visit.finding with
      | .foreign _ => true
      | _ => false }

end PassReport

end TreeSelector

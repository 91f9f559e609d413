import TreeSelector.Engine.Pass
import TreeSelector.Rule.RuleSet

/-!
# The engine

The engine runs passes over a rule set.  It knows what was in front at the last
pass: when that changes, a new generation begins, and rules start anew as they
are configured to.  Outcomes of actions count only within their generation.

A pass does not look for the rules that apply: the engine keeps their places in the
rule set, and finds them anew when something else is in front and when another
configuration is put in force.
-/

namespace TreeSelector

structure Engine where
  rules : RuleSet
  timing : Timing
  /-- What was in front at the last pass. -/
  identity : Option Identity := none
  /-- How often what is in front changed. -/
  generation : Nat := 0
  /-- The places of the rules that apply to what is in front, in order. -/
  applicable : List Nat := []
  passes : Nat := 0
  /-- The number of the rule set. -/
  series : Nat := 0

namespace Engine

def start (config : EngineConfig) (timing : Timing) (now : Time) : Engine :=
  { rules := .compile config 0 now, timing }

/-- Whether a rule applies to what is in front. -/
def applies (engine : Engine) (rule : Rule) : Bool :=
  engine.identity.any rule.definition.appliesTo

/-- Finds the rules that apply to what is in front. -/
def refreshApplicable (engine : Engine) : Engine :=
  { engine with applicable := engine.rules.placesWhere engine.applies }

/-- Puts another configuration in force. -/
def configure (engine : Engine) (config : EngineConfig) (now : Time) : Engine :=
  let series := engine.series + 1
  let engine := { engine with rules := .compile config series now, series }
  engine.refreshApplicable

/-- Starts a rule anew.  Also tells whether there is such a rule. -/
def resetRule (engine : Engine) (key : String) (now : Time) : Bool × Engine :=
  ((engine.rules.find? key).isSome,
    { engine with rules := engine.rules.modify key (·.reset now) })

/-- An action is reported; a report from another generation is ignored. -/
def actionFinished (engine : Engine) (key : String) (generation : Nat) (succeeded : Bool) :
    Engine :=
  if generation = engine.generation then
    { engine with rules := engine.rules.modify key fun rule => (rule.actionFinished succeeded).2 }
  else engine

/-- Whether the delays that a token stands for are still wanted. -/
def holds (engine : Engine) (token : TimerToken) : Bool := engine.rules.holds token

/-- Whether a pass would look at the tree at all. -/
def isWatching (engine : Engine) : Bool :=
  engine.rules.enableMatch && !engine.applicable.isEmpty

/-- The match delays of the rules that apply to what is in front. -/
def matchDelays (engine : Engine) (now : Time) : List Effect :=
  engine.applicable.filterMap fun place => do
    let rule ← engine.rules.rules[place]?
    if rule.status now = .pendingMatchDelay then
      some (.armMatchDelay rule.key rule.readyAt rule.token)
    else none

/-- Something else is in front. -/
def changeIdentity (engine : Engine) (identity : Identity) (now : Time) : Engine :=
  let appChanged := engine.identity.all (·.appId ≠ identity.appId)
  let rules := engine.rules.rules.map (·.identityChanged appChanged now)
  let engine :=
    { engine with
      rules := { engine.rules with rules }
      identity := some identity
      generation := engine.generation + 1 }
  engine.refreshApplicable

/-- Begins a pass: if something else is in front, rules start anew and their match
delays are armed. -/
def enter (engine : Engine) (request : PassRequest) : Engine × List Effect :=
  let engine := { engine with passes := engine.passes + 1 }
  if engine.identity = some request.identity then (engine, [])
  else
    let engine := engine.changeIdentity request.identity request.now
    (engine, engine.matchDelays request.now)

/-- The nodes below which a pass looks, and whether that is the whole tree: a batch
that is about one node narrows the search to it, if it still can be accessed. -/
def roots (host : Host) (batch : Option Batch) : Reading (List NodeId × Bool) := do
  match batch.bind (·.soleSource?) with
  | some source =>
      if ← host.readLiveness source then return ([source], false)
      else return ((← host.readRoot).toList, true)
  | none => return ((← host.readRoot).toList, true)

/-- The effects of the visits of a pass. -/
def visitEffects (engine : Engine) (request : PassRequest) (visits : List Visit) :
    List Effect :=
  let window := engine.timing.triggerRecheckWindow.toNat
  visits.filterMap (·.effect? request.identity engine.generation) ++
    if visits.any (·.asksAgain request.now window) then [.recheck] else []

/-- Goes on with a pass that has begun: looks at the tree and visits the rules. -/
def look (engine : Engine) (host : Host) (request : PassRequest) (begun : List Effect) :
    Reading (Engine × PassReport × List Effect) := do
  let report := PassReport.opening request engine.passes engine.generation
  if engine.isWatching then
    let (roots, fromRoot) ← roots host request.batch
    let report := { report with fromRoot }
    if roots.isEmpty then return (engine, report, begun)
    let (rules, visits) ← Rule.visitAll host request roots engine.applicable engine.rules.rules
    return ({ engine with rules := { engine.rules with rules } }, report.withVisits visits,
      begun ++ engine.visitEffects request visits)
  else return (engine, report, begun)

def runPass (engine : Engine) (host : Host) (request : PassRequest) :
    Reading (Engine × PassReport × List Effect) :=
  let (engine, begun) := engine.enter request
  engine.look host request begun

end Engine

end TreeSelector

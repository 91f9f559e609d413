import TreeSelector.Engine.Pass

/-!
# Actions

Actions are performed one at a time, apart from the passes that decide on them.
Each is reported back with its outcome.
-/

namespace TreeSelector

inductive ActionError where
  | nodeGone
  | rejected (reason : String)
  | unsupported
  deriving DecidableEq, Repr

def ActionError.message : ActionError → String
  | .nodeGone => "target node is no longer attached"
  | .rejected reason => "host rejected the action: " ++ reason
  | .unsupported => "action is not supported by the host"

structure ActionReport where
  rule : String
  action : RuleAction
  /-- The generation in which the action was decided on. -/
  generation : Nat
  /-- Why the action failed, if it did. -/
  failure : Option ActionError
  deriving DecidableEq

namespace ActionReport

def succeeded (report : ActionReport) : Bool := report.failure.isNone

def ofRequest (request : ActionRequest) (failure : Option ActionError) : ActionReport :=
  ⟨request.rule, request.action, request.generation, failure⟩

end ActionReport

end TreeSelector

import TreeSelector.Rule.Basic

/-!
# Rule sets

The rules of a configuration, ordered by their `order` and, where that is equal,
as they were configured.  Rules whose selectors cannot be read are set aside.
-/

namespace TreeSelector

/-- A rule that could not be read, and why. -/
structure RejectedRule where
  key : String
  error : SelectorError

structure RuleSet where
  /-- The rules in the order in which they are tried. -/
  rules : List Rule
  rejected : List RejectedRule
  /-- When off, no rule is looked at. -/
  enableMatch : Bool

namespace RuleSet

/-- Reads the rules of a configuration, numbering those that can be read. -/
def compileAll (engine : EngineConfig) (series : Nat) (now : Time) :
    (slot : Nat) → List RuleConfig → List Rule × List RejectedRule
  | _, [] => ([], [])
  | slot, config :: configs =>
      match RuleDefinition.compile config engine with
      | .ok definition =>
          let (rules, rejected) := compileAll engine series now (slot + 1) configs
          (.start definition ⟨series, slot, 0⟩ now :: rules, rejected)
      | .error error =>
          let (rules, rejected) := compileAll engine series now slot configs
          (rules, ⟨config.key, error⟩ :: rejected)

def precedes (first second : Rule) : Bool := first.config.order ≤ second.config.order

/-- The rules of a configuration, all at their beginning. -/
def compile (engine : EngineConfig) (series : Nat) (now : Time) : RuleSet :=
  let (rules, rejected) := compileAll engine series now 0 engine.rules
  { rules := rules.mergeSort precedes, rejected, enableMatch := engine.enableMatch }

def find? (set : RuleSet) (key : String) : Option Rule := set.rules.find? (·.key == key)

/-- Changes the first rule with a key. -/
def modifyFirst (key : String) (change : Rule → Rule) : List Rule → List Rule
  | [] => []
  | rule :: rules =>
      if rule.key = key then change rule :: rules else rule :: modifyFirst key change rules

/-- Changes the first rule with a key. -/
def modify (set : RuleSet) (key : String) (change : Rule → Rule) : RuleSet :=
  { set with rules := modifyFirst key change set.rules }

/-- The places of the rules that pass a test, in order. -/
def placesWhere (set : RuleSet) (test : Rule → Bool) : List Nat :=
  (set.rules.zipIdx.filter fun (rule, _) => test rule).map (·.2)

/-- Whether a token belongs to a rule of the set and so is not void. -/
def holds (set : RuleSet) (token : TimerToken) : Bool :=
  set.rules.any (·.token = token)

end RuleSet

end TreeSelector

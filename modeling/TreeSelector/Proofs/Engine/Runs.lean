import TreeSelector.Proofs.Engine.Visits

/-!
# Runs of an engine

An engine goes through passes, reports, resets and configurations in any order.  Every
change of what is in front begins a generation, and nothing else does.
-/

namespace TreeSelector

/-- What may happen to an engine. -/
inductive Event where
  | pass (host : Host) (request : PassRequest) (session : Session)
  | report (key : String) (generation : Nat) (succeeded : Bool)
  | reset (key : String) (now : Time)
  | configure (config : EngineConfig) (now : Time)

/-- Whether an event is a command that starts the rules with a key anew. -/
def Event.restarts (key : String) : Event → Prop
  | reset other _ => other = key
  | configure _ _ => True
  | _ => False

/-- Something else came to the front. -/
structure IdentityChange where
  appChanged : Bool
  time : Time

namespace RuleSet

-- without this every equation about a compiled rule set would read its selectors
attribute [local irreducible] RuleDefinition.compile

theorem compileAll_cons (config : EngineConfig) (series : Nat) (now : Time) (slot : Nat)
    (first : RuleConfig) (configs : List RuleConfig) :
    compileAll config series now slot (first :: configs) =
      match RuleDefinition.compile first config with
      | .ok definition =>
          let (rules, rejected) := compileAll config series now (slot + 1) configs
          (.start definition ⟨series, slot, 0⟩ now :: rules, rejected)
      | .error error =>
          let (rules, rejected) := compileAll config series now slot configs
          (rules, ⟨first.key, error⟩ :: rejected) := rfl

/-- The rules that can be read are at their beginning. -/
theorem exists_start_of_mem_compileAll (config : EngineConfig) (series : Nat) (now : Time)
    (slot : Nat) (configs : List RuleConfig) :
    ∀ rule ∈ (compileAll config series now slot configs).1,
      ∃ definition token, rule = .start definition token now := by
  induction configs generalizing slot with
  | nil => exact fun rule member => absurd member List.not_mem_nil
  | cons first configs hypothesis =>
      rw [compileAll_cons]
      cases RuleDefinition.compile first config with
      | error error => exact hypothesis slot
      | ok definition =>
          intro rule member
          rcases List.mem_cons.mp member with rfl | later
          · exact ⟨definition, ⟨series, slot, 0⟩, rfl⟩
          · exact hypothesis (slot + 1) rule later

theorem exists_start_of_mem_compile {config : EngineConfig} {series : Nat} {now : Time}
    {rule : Rule} (member : rule ∈ (compile config series now).rules) :
    ∃ definition token, rule = .start definition token now :=
  exists_start_of_mem_compileAll config series now 0 config.rules rule
    ((List.mergeSort_perm _ _).mem_iff.mp member)

theorem of_mem_modifyFirst {key : String} {change : Rule → Rule} {rules : List Rule}
    {after : Rule} (member : after ∈ modifyFirst key change rules) :
    after ∈ rules ∨ ∃ rule ∈ rules, after = change rule := by
  induction rules with
  | nil => cases member
  | cons first rules hypothesis =>
      rw [modifyFirst] at member
      split at member
      · rcases List.mem_cons.mp member with rfl | later
        · exact .inr ⟨first, List.mem_cons_self, rfl⟩
        · exact .inl (List.mem_cons_of_mem _ later)
      · rcases List.mem_cons.mp member with rfl | later
        · exact .inl List.mem_cons_self
        · rcases hypothesis later with old | ⟨rule, old, same⟩
          · exact .inl (List.mem_cons_of_mem _ old)
          · exact .inr ⟨rule, List.mem_cons_of_mem _ old, same⟩

end RuleSet

namespace Engine

/-- What a pass comes to: the engine after it, its report and its effects. -/
def passed (engine : Engine) (host : Host) (request : PassRequest) (session : Session) :
    Engine × PassReport × List Effect :=
  (engine.runPass host request).answer session

def react (engine : Engine) : Event → Engine
  | .pass host request session => (engine.passed host request session).1
  | .report key generation succeeded => engine.actionFinished key generation succeeded
  | .reset key now => (engine.resetRule key now).2
  | .configure config now => engine.configure config now

def run (engine : Engine) (events : List Event) : Engine := events.foldl react engine

/-- What changes if something is in front at a pass. -/
def changeBy? (engine : Engine) (request : PassRequest) : Option IdentityChange :=
  if engine.identity = some request.identity then none
  else some ⟨engine.identity.all (·.appId ≠ request.identity.appId), request.now⟩

def change? (engine : Engine) : Event → Option IdentityChange
  | .pass _ request _ => engine.changeBy? request
  | _ => none

/-- The changes of what is in front in the course of a run. -/
def changes (engine : Engine) : List Event → List IdentityChange
  | [] => []
  | event :: events => (engine.change? event).toList ++ (engine.react event).changes events

theorem run_append (engine : Engine) (events events' : List Event) :
    engine.run (events ++ events') = (engine.run events).run events' :=
  List.foldl_append

theorem changes_append (engine : Engine) (events events' : List Event) :
    engine.changes (events ++ events') =
      engine.changes events ++ (engine.run events).changes events' := by
  induction events generalizing engine with
  | nil => rfl
  | cons event events hypothesis =>
      rw [List.cons_append, changes, changes, hypothesis, List.append_assoc]
      rfl

theorem changes_singleton (engine : Engine) (event : Event) :
    engine.changes [event] = (engine.change? event).toList :=
  List.append_nil _

theorem rules_changeIdentity (engine : Engine) (identity : Identity) (now : Time) :
    (engine.changeIdentity identity now).rules.rules = engine.rules.rules.map
      (·.identityChanged (engine.identity.all (·.appId ≠ identity.appId)) now) := rfl

theorem generation_enter (engine : Engine) (request : PassRequest) :
    (engine.enter request).1.generation =
      engine.generation + (engine.changeBy? request).toList.length := by
  unfold enter changeBy?
  dsimp only
  split <;> rfl

/-- A pass visits rules as it finds them when it has begun; its report, its effects and
the rules after it are read off its visits. -/
theorem passed_revises (engine : Engine) (host : Host) (request : PassRequest)
    (session : Session) :
    let begun := engine.enter request
    let outcome := engine.passed host request session
    ∃ visits, Rule.Revised request.now begun.1.rules.rules outcome.1.rules.rules visits ∧
      outcome.2.1.generation = begun.1.generation ∧
      outcome.2.2 = begun.2 ++ begun.1.visitEffects request visits := by
  intro begun outcome
  obtain ⟨visits, revised, reported, _, effects, _⟩ :=
    begun.1.look_revises host request begun.2 session
  exact ⟨visits, revised, reported, effects⟩

theorem identity_enter (engine : Engine) (request : PassRequest) :
    (engine.enter request).1.identity = some request.identity := by
  simp only [enter]
  split
  · assumption
  · rfl

/-- A pass that has begun changes nothing but the rules. -/
theorem passed_rules (engine : Engine) (host : Host) (request : PassRequest)
    (session : Session) :
    let begun := (engine.enter request).1
    let outcome := (engine.passed host request session).1
    outcome = { begun with rules := { begun.rules with rules := outcome.rules.rules } } :=
  (engine.enter request).1.look_rules host request (engine.enter request).2 session

theorem identity_passed (engine : Engine) (host : Host) (request : PassRequest)
    (session : Session) :
    (engine.passed host request session).1.identity = some request.identity := by
  rw [passed_rules]
  exact engine.identity_enter request

theorem generation_passed (engine : Engine) (host : Host) (request : PassRequest)
    (session : Session) :
    (engine.passed host request session).1.generation = (engine.enter request).1.generation := by
  rw [passed_rules]

theorem generation_react (engine : Engine) (event : Event) :
    (engine.react event).generation =
      engine.generation + (engine.change? event).toList.length := by
  cases event with
  | pass host request session =>
      rw [react, generation_passed]
      exact engine.generation_enter request
  | report key generation succeeded =>
      change (engine.actionFinished key generation succeeded).generation = engine.generation
      unfold actionFinished
      split <;> rfl
  | reset key now => rfl
  | configure config now => rfl

/-- A run goes through as many generations as there are changes of what is in front. -/
theorem generation_run (engine : Engine) (events : List Event) :
    (engine.run events).generation = engine.generation + (engine.changes events).length := by
  induction events generalizing engine with
  | nil => rfl
  | cons event events hypothesis =>
      have later := hypothesis (engine.react event)
      rw [generation_react] at later
      rw [changes, List.length_append]
      exact later.trans (Nat.add_assoc _ _ _)

end Engine

end TreeSelector

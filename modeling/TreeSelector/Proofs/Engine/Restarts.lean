import Mathlib.Data.List.Induction
import TreeSelector.Proofs.Engine.Dispatches

/-!
# Reports from before a restart

A rule is started anew by a command or with a new engine.  The report of an action from
before that is told from other reports by its generation alone, which a command does not
change and which a new engine counts from the beginning.  So it is ignored unless the
generation is right by then and the rule has dispatched its action again: in that case it
is taken for the report of the later action.
-/

namespace TreeSelector

/-- What may happen to an engine, or instead of it. -/
inductive Incident where
  | event (happened : Event)
  /-- The engine is lost, and there is a new one. -/
  | rebuild (config : EngineConfig) (timing : Timing) (now : Time)

namespace Incident

/-- Whether an incident starts the rules with a key anew, whatever is in front. -/
def restarts (key : String) : Incident → Prop
  | .event happened => happened.restarts key
  | .rebuild _ _ _ => True

/-- No two rules of a configuration that an incident puts in force have the same key. -/
def HasDistinctKeys : Incident → Prop
  | .event (.configure config _) | .rebuild config _ _ => (config.rules.map (·.key)).Nodup
  | _ => True

end Incident

namespace Rule

theorem keepsActions_actionFinished_iff (rule : Rule) (succeeded : Bool) :
    rule.KeepsActions (rule.actionFinished succeeded).2 ↔ rule.progress.acting = none := by
  constructor
  · intro keeps
    rw [← keeps.acting]
    exact Ledger.acting_actionFinished rule succeeded
  · intro idle
    simp only [actionFinished, idle]
    exact .refl rule

/-- A report changes the actions of no rule exactly if no rule with its key is acting. -/
theorem forall₂_keepsActions_iff {rules : List Rule} (distinct : (rules.map key).Nodup)
    (named : String) (succeeded : Bool) :
    List.Forall₂ KeepsActions rules
        (RuleSet.modifyFirst named (fun rule => (rule.actionFinished succeeded).2) rules) ↔
      ∀ rule ∈ rules, rule.key = named → rule.progress.acting = none := by
  induction rules with
  | nil => simp [RuleSet.modifyFirst]
  | cons first rules hypothesis =>
      rw [List.map_cons, List.nodup_cons] at distinct
      rw [RuleSet.modifyFirst, List.forall_mem_cons]
      split
      · rename_i here
        have others : ∀ rule ∈ rules, rule.key = named → rule.progress.acting = none := by
          intro rule member same
          exact absurd (List.mem_map.mpr ⟨rule, member, same.trans here.symm⟩) distinct.1
        simp only [List.forall₂_cons, keepsActions_actionFinished_iff,
          forall₂_keepsActions_refl, here]
        simpa using fun _ => others
      · rename_i elsewhere
        simp only [List.forall₂_cons, hypothesis distinct.2, KeepsActions.refl, true_and]
        simp [elsewhere]

end Rule

namespace Engine

section Keys

-- without this every equation about a compiled rule set would read its selectors
attribute [local irreducible] RuleDefinition.compile

theorem keys_compile_nodup {config : EngineConfig} (distinct : (config.rules.map (·.key)).Nodup)
    (series : Nat) (now : Time) :
    ((RuleSet.compile config series now).rules.map Rule.key).Nodup := by
  have sorted : (RuleSet.compile config series now).rules.Perm
      (RuleSet.compileAll config series now 0 config.rules).1 := List.mergeSort_perm _ _
  apply (sorted.map Rule.key).nodup_iff.mpr
  exact distinct.sublist (Ledger.keys_compileAll config series now 0 config.rules)

end Keys

/-- What an incident leaves in the place of an engine. -/
def undergo (engine : Engine) : Incident → Engine
  | .event happened => engine.react happened
  | .rebuild config timing now => .start config timing now

def undergoAll (engine : Engine) (incidents : List Incident) : Engine :=
  incidents.foldl undergo engine

theorem undergoAll_append (engine : Engine) (incidents incidents' : List Incident) :
    engine.undergoAll (incidents ++ incidents') =
      (engine.undergoAll incidents).undergoAll incidents' :=
  List.foldl_append

/-- In the course of some incidents a pass dispatched the action of a rule with a key, and
such a rule has been acting on it since. -/
def ActsSince (origin : Engine) (incidents : List Incident) (key : String) : Prop :=
  ∃ before host request session after,
    incidents = before ++ .event (.pass host request session) :: after ∧
      (∃ emitted ∈ requestsOf ((origin.undergoAll before).passed host request session).2.2,
        emitted.rule = key) ∧
      ∀ middle, middle <+: after →
        ∃ rule ∈ (origin.undergoAll
            (before ++ .event (.pass host request session) :: middle)).rules.rules,
          rule.key = key ∧ rule.progress.acting = some request.now

section Incidents

variable {engine : Engine}

theorem keys_undergo_nodup (distinct : (engine.rules.rules.map Rule.key).Nodup)
    {incident : Incident} (orderly : incident.HasDistinctKeys) :
    ((engine.undergo incident).rules.rules.map Rule.key).Nodup := by
  cases incident with
  | rebuild config timing now => exact keys_compile_nodup orderly 0 now
  | event happened =>
      cases happened with
      | configure config now => exact keys_compile_nodup orderly (engine.series + 1) now
      | _ =>
          simp only [undergo]
          rw [Rule.Advances.keys_eq (engine.react_advances (by simp)).rules]
          exact distinct

theorem keys_undergoAll_nodup (distinct : (engine.rules.rules.map Rule.key).Nodup)
    {incidents : List Incident} (orderly : ∀ incident ∈ incidents, incident.HasDistinctKeys) :
    ((engine.undergoAll incidents).rules.rules.map Rule.key).Nodup := by
  induction incidents generalizing engine with
  | nil => exact distinct
  | cons incident incidents hypothesis =>
      apply hypothesis (keys_undergo_nodup distinct (orderly incident List.mem_cons_self))
      exact fun later member => orderly later (List.mem_cons_of_mem _ member)

theorem IsFresh.undergo (fresh : engine.IsFresh) (incident : Incident) :
    (engine.undergo incident).IsFresh := by
  cases incident with
  | event happened => exact fresh.react happened
  | rebuild config timing now => exact start_isFresh config timing now

theorem IsFresh.undergoAll (fresh : engine.IsFresh) (incidents : List Incident) :
    (engine.undergoAll incidents).IsFresh := by
  induction incidents generalizing engine with
  | nil => exact fresh
  | cons incident incidents hypothesis => exact hypothesis (fresh.undergo incident)

theorem acting_eq_none_of_restarts (distinct : (engine.rules.rules.map Rule.key).Nodup)
    {incident : Incident} {key : String} (restarts : incident.restarts key) {rule : Rule}
    (member : rule ∈ (engine.undergo incident).rules.rules) (named : rule.key = key) :
    rule.progress.acting = none := by
  cases incident with
  | rebuild config timing now =>
      obtain ⟨definition, token, rfl⟩ := RuleSet.exists_start_of_mem_compile member
      rfl
  | event happened =>
      cases happened with
      | reset other now =>
          obtain ⟨before, _, ⟨_, rfl⟩ | ⟨elsewhere, rfl⟩⟩ :=
            Ledger.mem_modifyFirst distinct member
          · rfl
          · exact absurd (named.trans restarts.symm) elsewhere
      | configure config now =>
          obtain ⟨definition, token, rfl⟩ := RuleSet.exists_start_of_mem_compile member
          rfl
      | _ => exact restarts.elim

/-- A rule acts in a pass only if it was acting before or dispatches its action. -/
theorem acting_of_passed (fresh : engine.IsFresh)
    (distinct : (engine.rules.rules.map Rule.key).Nodup) (host : Host) (request : PassRequest)
    (session : Session) {rule : Rule}
    (member : rule ∈ (engine.passed host request session).1.rules.rules)
    (acting : rule.progress.acting ≠ none) :
    (∃ before ∈ engine.rules.rules, before.key = rule.key ∧
        before.progress.acting = rule.progress.acting) ∨
      ((∃ emitted ∈ requestsOf (engine.passed host request session).2.2,
        emitted.rule = rule.key) ∧ rule.progress.acting = some request.now) := by
  obtain ⟨visits, visited, emitted⟩ := fresh.passed_requests host request session
  have distinct' : ((engine.enter request).1.rules.rules.map Rule.key).Nodup := by
    rw [Rule.Advances.keys_eq (engine.enter_advances request).rules]
    exact distinct
  obtain ⟨before, begun, ⟨keeps, _⟩ | ⟨_, rfl, node, made⟩⟩ :=
    visited.requests_of_mem distinct' (engine.enter request).1.generation member
  · left
    rw [keeps.acting, keeps.key_eq] at *
    simp only [enter] at begun
    split at begun
    · exact ⟨before, begun, rfl, rfl⟩
    · obtain ⟨rule', old, rfl⟩ := List.mem_map.mp begun
      obtain ⟨_, same⟩ := Ledger.isOvertaken_of_acting acting
      rw [same]
      exact ⟨rule', old, rfl, rfl⟩
  · right
    refine ⟨⟨⟨before.key, node, before.config.action, (engine.enter request).1.generation⟩,
      ?_, rfl⟩, rfl⟩
    rw [emitted]
    have found : (⟨before.key, node, before.config.action,
        (engine.enter request).1.generation⟩ : ActionRequest) ∈
          (Rule.requestsAt (engine.enter request).1.generation visits).filter
            (·.rule = before.key) := by
      rw [made]
      exact List.mem_singleton_self _
    exact List.mem_of_mem_filter found

theorem acting_of_undergo (fresh : engine.IsFresh)
    (distinct : (engine.rules.rules.map Rule.key).Nodup) {incident : Incident} {rule : Rule}
    (member : rule ∈ (engine.undergo incident).rules.rules)
    (acting : rule.progress.acting ≠ none) :
    (∃ before ∈ engine.rules.rules, before.key = rule.key ∧
        before.progress.acting = rule.progress.acting) ∨
      ∃ host request session, incident = .event (.pass host request session) ∧
        (∃ emitted ∈ requestsOf (engine.passed host request session).2.2,
          emitted.rule = rule.key) ∧ rule.progress.acting = some request.now := by
  cases incident with
  | rebuild config timing now =>
      obtain ⟨definition, token, rfl⟩ := RuleSet.exists_start_of_mem_compile member
      exact absurd rfl acting
  | event happened =>
      cases happened with
      | pass host request session =>
          rcases acting_of_passed fresh distinct host request session member acting with
            earlier | dispatched
          · exact .inl earlier
          · exact .inr ⟨host, request, session, rfl, dispatched⟩
      | report key generation succeeded =>
          obtain ⟨before, old, ⟨_, _, rfl⟩ | ⟨_, rfl⟩⟩ :=
            actionFinished_outcome distinct key generation succeeded member
          · exact absurd (Ledger.acting_actionFinished before succeeded) acting
          · exact .inl ⟨rule, old, rfl, rfl⟩
      | reset key now =>
          obtain ⟨before, old, ⟨_, rfl⟩ | ⟨_, rfl⟩⟩ := Ledger.mem_modifyFirst distinct member
          · exact absurd rfl acting
          · exact .inl ⟨rule, old, rfl, rfl⟩
      | configure config now =>
          obtain ⟨definition, token, rfl⟩ := RuleSet.exists_start_of_mem_compile member
          exact absurd rfl acting

theorem ActsSince.extend {origin : Engine} {incidents : List Incident} {incident : Incident}
    {rule : Rule} (distinct : ((origin.undergoAll incidents).rules.rules.map Rule.key).Nodup)
    (acts : origin.ActsSince incidents rule.key)
    (member : rule ∈ (origin.undergoAll (incidents ++ [incident])).rules.rules) {before : Rule}
    (old : before ∈ (origin.undergoAll incidents).rules.rules) (named : before.key = rule.key)
    (same : before.progress.acting = rule.progress.acting) :
    origin.ActsSince (incidents ++ [incident]) rule.key := by
  obtain ⟨earlier, host, request, session, after, rfl, emitted, acting⟩ := acts
  refine ⟨earlier, host, request, session, after ++ [incident], by simp, emitted, ?_⟩
  intro middle early
  rcases List.prefix_concat_iff.mp early with rfl | inside
  · obtain ⟨other, present, named', time⟩ := acting after List.prefix_rfl
    obtain rfl := Ledger.eq_of_key_eq distinct present old (named'.trans named.symm)
    refine ⟨rule, ?_, rfl, same.symm.trans time⟩
    simpa using member
  · exact acting middle inside

/-- After a restart a rule acts only on what was dispatched since. -/
theorem actsSince_of_acting {origin : Engine} {key : String} (fresh : origin.IsFresh)
    (distinct : (origin.rules.rules.map Rule.key).Nodup)
    (idle : ∀ rule ∈ origin.rules.rules, rule.key = key → rule.progress.acting = none)
    (incidents : List Incident) (orderly : ∀ incident ∈ incidents, incident.HasDistinctKeys)
    {rule : Rule} (member : rule ∈ (origin.undergoAll incidents).rules.rules)
    (named : rule.key = key) (acting : rule.progress.acting ≠ none) :
    origin.ActsSince incidents key := by
  induction incidents using List.reverseRecOn generalizing rule with
  | nil => exact absurd (idle rule member named) acting
  | append_singleton incidents incident hypothesis =>
      have orderly' : ∀ earlier ∈ incidents, earlier.HasDistinctKeys := fun earlier among =>
        orderly earlier (List.mem_append_left _ among)
      have distinct' := keys_undergoAll_nodup distinct orderly'
      have last : rule ∈ ((origin.undergoAll incidents).undergo incident).rules.rules := by
        rw [undergoAll_append] at member
        exact member
      subst named
      rcases acting_of_undergo (fresh.undergoAll incidents) distinct' last acting with
        ⟨before, old, same, time⟩ | ⟨host, request, session, rfl, emitted, time⟩
      · exact (hypothesis orderly' old same (time ▸ acting)).extend distinct' member old same time
      · refine ⟨incidents, host, request, session, [], rfl, emitted, ?_⟩
        intro middle early
        obtain rfl := List.prefix_nil.mp early
        exact ⟨rule, member, rfl, time⟩

end Incidents

/-- A report changes the actions of no rule unless it has the generation of the engine and
finds a rule with its key acting. -/
theorem inert_iff {engine : Engine} (distinct : (engine.rules.rules.map Rule.key).Nodup)
    (key : String) (generation : Nat) (succeeded : Bool) :
    List.Forall₂ Rule.KeepsActions engine.rules.rules
        (engine.actionFinished key generation succeeded).rules.rules ↔
      (generation = engine.generation →
        ∀ rule ∈ engine.rules.rules, rule.key = key → rule.progress.acting = none) := by
  simp only [actionFinished]
  split
  · rename_i current
    rw [RuleSet.modify, Rule.forall₂_keepsActions_iff distinct key succeeded]
    exact ⟨fun idle _ => idle, fun idle => idle current⟩
  · rename_i other
    constructor
    · exact fun _ current => absurd current other
    · exact fun _ => Rule.forall₂_keepsActions_refl _

/-- After a rule was started anew, no report changes what its actions come to, unless it
has the generation of the engine and the rule has dispatched an action since on which it is
acting still. -/
theorem report_inert_iff {config : EngineConfig} {earlier later : List Incident}
    {restart : Incident} {key : String} (distinct : (config.rules.map (·.key)).Nodup)
    (orderly : ∀ incident ∈ earlier ++ restart :: later, incident.HasDistinctKeys)
    (restarts : restart.restarts key) (timing : Timing) (began : Time) (generation : Nat)
    (succeeded : Bool) :
    let restarted := (start config timing began).undergoAll (earlier ++ [restart])
    let engine := restarted.undergoAll later
    List.Forall₂ Rule.KeepsActions engine.rules.rules
        (engine.actionFinished key generation succeeded).rules.rules ↔
      (generation = engine.generation → ¬ restarted.ActsSince later key) := by
  intro restarted engine
  have before : (((start config timing began).undergoAll earlier).rules.rules.map
      Rule.key).Nodup := by
    apply keys_undergoAll_nodup (keys_compile_nodup distinct 0 began)
    exact fun incident member => orderly incident (List.mem_append_left _ member)
  have shape : restarted = ((start config timing began).undergoAll earlier).undergo restart :=
    undergoAll_append _ earlier [restart]
  have distinct' : (restarted.rules.rules.map Rule.key).Nodup := by
    rw [shape]
    exact keys_undergo_nodup before (orderly restart (by simp))
  have orderly' : ∀ incident ∈ later, incident.HasDistinctKeys :=
    fun incident member => orderly incident (by simp [member])
  have idle : ∀ rule ∈ restarted.rules.rules, rule.key = key → rule.progress.acting = none := by
    rw [shape]
    exact fun rule member named => acting_eq_none_of_restarts before restarts member named
  have distinct'' : (engine.rules.rules.map Rule.key).Nodup :=
    keys_undergoAll_nodup distinct' orderly'
  rw [inert_iff distinct'' key generation succeeded]
  constructor
  · rintro idle current ⟨lead, host, request, session, after, rfl, _, acting⟩
    obtain ⟨rule, member, named, time⟩ := acting after List.prefix_rfl
    rw [idle current rule member named] at time
    cases time
  · intro never current rule member named
    by_contra acting
    have fresh : restarted.IsFresh := (start_isFresh config timing began).undergoAll _
    exact never current
      (actsSince_of_acting fresh distinct' idle later orderly' member named acting)

section Overtaken

open Ledger (skipConfig skipHost passIn)

/-- The rule finds its button and acts. -/
def clicks (now : Time) : Incident :=
  .event (.pass skipHost (passIn "a.A" now) (.fresh 0))

/-- The button is gone. -/
def misses (now : Time) : Incident :=
  .event (.pass (.serving (.node {} []) [] true) (passIn "a.A" now) (.fresh 0))

/-- The rule acts and is reset, and then its button is gone. -/
def goneAfterReset : Engine :=
  ((start skipConfig {} 0).undergoAll ([clicks 0] ++ [.event (.reset "k" 10)])).undergoAll
    [misses 20]

/-- A report from before a reset changes nothing as long as the button is gone. -/
theorem report_inert_after_reset :
    List.Forall₂ Rule.KeepsActions goneAfterReset.rules.rules
      (goneAfterReset.actionFinished "k" 1 true).rules.rules := by
  have idle : ∀ rule ∈ goneAfterReset.rules.rules, rule.progress.acting = none := by
    decide +kernel
  have restarts : (Incident.event (.reset "k" 10)).restarts "k" := rfl
  have orderly : ∀ incident ∈ [clicks 0] ++ .event (.reset "k" 10) :: [misses 20],
      incident.HasDistinctKeys := by
    simp [clicks, misses, Incident.HasDistinctKeys]
  rw [goneAfterReset] at idle ⊢
  apply (report_inert_iff (by decide) orderly restarts {} 0 1 true).mpr
  rintro _ ⟨before, host, request, session, after, split, _, acting⟩
  obtain ⟨rule, member, _, time⟩ := acting after List.prefix_rfl
  rw [← split] at member
  rw [idle rule member] at time
  cases time

/-- The report of an action from before a reset may count for a later action. -/
theorem stale_report_counts :
    ¬ ∀ (config : EngineConfig) (timing : Timing) (began : Time)
      (earlier between later : List Incident) (host : Host) (request : PassRequest)
      (session : Session) (restart : Incident) (emitted : ActionRequest) (succeeded : Bool),
      (config.rules.map (·.key)).Nodup →
      (∀ incident ∈ earlier ++ .event (.pass host request session) :: between ++
        restart :: later, incident.HasDistinctKeys) →
      emitted ∈ requestsOf (((start config timing began).undergoAll earlier).passed host request
        session).2.2 →
      restart.restarts emitted.rule →
      let engine := (start config timing began).undergoAll
        (earlier ++ .event (.pass host request session) :: between ++ restart :: later)
      List.Forall₂ Rule.KeepsActions engine.rules.rules
        (engine.actionFinished emitted.rule emitted.generation succeeded).rules.rules := by
  intro always
  have inert := always skipConfig {} 0 [] [] [clicks 20] skipHost (passIn "a.A" 0) (.fresh 0)
    (.event (.reset "k" 10)) ⟨"k", 1, .click, 1⟩ true (by decide)
    (by simp [clicks, Incident.HasDistinctKeys]) (by decide +kernel) rfl
  obtain ⟨distinct, current, rule, member, named, acting⟩ :
      (((start skipConfig {} 0).undergoAll ([] ++
        .event (.pass skipHost (passIn "a.A" 0) (.fresh 0)) :: [] ++ .event (.reset "k" 10) ::
          [clicks 20])).rules.rules.map Rule.key).Nodup ∧
      1 = ((start skipConfig {} 0).undergoAll ([] ++
        .event (.pass skipHost (passIn "a.A" 0) (.fresh 0)) :: [] ++ .event (.reset "k" 10) ::
          [clicks 20])).generation ∧
      ∃ rule ∈ ((start skipConfig {} 0).undergoAll ([] ++
        .event (.pass skipHost (passIn "a.A" 0) (.fresh 0)) :: [] ++ .event (.reset "k" 10) ::
          [clicks 20])).rules.rules,
        rule.key = "k" ∧ rule.progress.acting ≠ none := by
    decide +kernel
  simp only at inert
  have idle := (inert_iff distinct "k" 1 true).mp inert
  exact acting (idle current rule member named)

end Overtaken

end Engine

end TreeSelector

import Mathlib.Data.List.Nodup
import Mathlib.Logic.Relation
import TreeSelector.Proofs.Engine.Applicability
import TreeSelector.Proofs.Tree.Served

/-!
# Actions and their reports

A ledger follows an engine through passes and reports.  It keeps the requests that
were emitted and not reported, and the rules that were overtaken: the last change of
what is in front found them acting and did not start them anew.  The report of an
overtaken rule comes from an older generation and is ignored, so once all requests are
reported the rules still acting are exactly the overtaken ones.
-/

namespace TreeSelector

namespace Rule

/-- Whether a rule goes on acting while something else comes to the front. -/
def isOvertaken (rule : Rule) (appChanged : Bool) (now : Time) : Bool :=
  rule.progress.acting.isSome && !rule.restartsOn appChanged now

end Rule

/-- An engine with what is known of its actions. -/
structure Ledger where
  engine : Engine
  /-- The requests that were emitted and have not been reported. -/
  outstanding : List ActionRequest
  /-- The rules that the last change of what is in front found acting and did not start
  anew. -/
  overtaken : List String

namespace Ledger

/-- The rules that a pass overtakes if something else is in front. -/
def overtakes (engine : Engine) (identity : Identity) (now : Time) : List String :=
  let appChanged := engine.identity.all (·.appId ≠ identity.appId)
  (engine.rules.rules.filter (·.isOvertaken appChanged now)).map Rule.key

def start (config : EngineConfig) (timing : Timing) (now : Time) : Ledger :=
  ⟨.start config timing now, [], []⟩

/-- The ledger after a pass. -/
def afterPass (ledger : Ledger) (host : Host) (request : PassRequest) (session : Session) :
    Ledger :=
  let outcome := (ledger.engine.runPass host request).answer session
  { engine := outcome.1
    outstanding := ledger.outstanding ++ requestsOf outcome.2.2
    overtaken :=
      if ledger.engine.identity = some request.identity then ledger.overtaken
      else overtakes ledger.engine request.identity request.now }

/-- The ledger after the report of a request. -/
def afterReport (ledger : Ledger) (request : ActionRequest) (succeeded : Bool) : Ledger :=
  { ledger with
    engine := ledger.engine.actionFinished request.rule request.generation succeeded
    outstanding := ledger.outstanding.erase request }

/-- What may happen next: any pass, and the report of any outstanding request. -/
inductive Step : Ledger → Ledger → Prop where
  | pass (ledger : Ledger) (host : Host) (request : PassRequest) (session : Session) :
      Step ledger (ledger.afterPass host request session)
  | report (ledger : Ledger) (request : ActionRequest) (succeeded : Bool) :
      request ∈ ledger.outstanding → Step ledger (ledger.afterReport request succeeded)

/-- A ledger reached from a new engine. -/
def Reached (config : EngineConfig) (timing : Timing) (now : Time) (ledger : Ledger) : Prop :=
  Relation.ReflTransGen Step (start config timing now) ledger

/-- Every acting rule is accounted for: it was overtaken, or its request is outstanding
and belongs to the current generation. -/
structure IsSound (ledger : Ledger) : Prop where
  distinct : (ledger.engine.rules.rules.map Rule.key).Nodup
  shown : ∀ rule ∈ ledger.engine.rules.rules, ∀ time,
    rule.progress.acting = some time → rule.status time = .acting
  accounted : ∀ rule ∈ ledger.engine.rules.rules, rule.progress.acting ≠ none →
    rule.key ∈ ledger.overtaken ∨ ∃ request ∈ ledger.outstanding,
      request.rule = rule.key ∧ request.generation = ledger.engine.generation
  stranded : ∀ rule ∈ ledger.engine.rules.rules, rule.key ∈ ledger.overtaken →
    rule.progress.acting ≠ none
  current : ∀ request ∈ ledger.outstanding,
    request.generation = ledger.engine.generation → request.rule ∉ ledger.overtaken
  past : ∀ request ∈ ledger.outstanding, request.generation ≤ ledger.engine.generation

section Keys

variable {rules : List Rule}

/-- No two rules of a list with distinct keys have the same key. -/
theorem eq_of_key_eq (distinct : (rules.map Rule.key).Nodup) {rule rule' : Rule}
    (member : rule ∈ rules) (member' : rule' ∈ rules) (same : rule.key = rule'.key) :
    rule = rule' :=
  List.inj_on_of_nodup_map distinct member member' same

/-- Where keys are distinct, changing the first rule with a key changes just that rule. -/
theorem mem_modifyFirst (distinct : (rules.map Rule.key).Nodup) {key : String}
    {change : Rule → Rule} {after : Rule}
    (member : after ∈ RuleSet.modifyFirst key change rules) :
    ∃ rule ∈ rules, rule.key = key ∧ after = change rule ∨ rule.key ≠ key ∧ after = rule := by
  induction rules with
  | nil => cases member
  | cons first rules hypothesis =>
      rw [List.map_cons, List.nodup_cons] at distinct
      rw [RuleSet.modifyFirst] at member
      split at member
      · rename_i here
        rcases List.mem_cons.mp member with rfl | later
        · exact ⟨first, List.mem_cons_self, .inl ⟨here, rfl⟩⟩
        · refine ⟨after, List.mem_cons_of_mem _ later, .inr ⟨?_, rfl⟩⟩
          rintro same
          exact distinct.1 (List.mem_map.mpr ⟨after, later, same.trans here.symm⟩)
      · rename_i elsewhere
        rcases List.mem_cons.mp member with rfl | later
        · exact ⟨after, List.mem_cons_self, .inr ⟨elsewhere, rfl⟩⟩
        · obtain ⟨rule, old, outcome⟩ := hypothesis distinct.2 later
          exact ⟨rule, List.mem_cons_of_mem _ old, outcome⟩

theorem keys_modifyFirst (key : String) {change : Rule → Rule}
    (keeps : ∀ rule, (change rule).key = rule.key) :
    (RuleSet.modifyFirst key change rules).map Rule.key = rules.map Rule.key := by
  induction rules with
  | nil => rfl
  | cons first rules hypothesis =>
      rw [RuleSet.modifyFirst]
      split
      · rw [List.map_cons, List.map_cons, keeps]
      · rw [List.map_cons, List.map_cons, hypothesis]

end Keys

section Reports

theorem key_actionFinished (rule : Rule) (succeeded : Bool) :
    (rule.actionFinished succeeded).2.key = rule.key := by
  unfold Rule.actionFinished
  split
  · rfl
  · split <;> rfl

/-- A rule whose action was reported is not acting. -/
theorem acting_actionFinished (rule : Rule) (succeeded : Bool) :
    (rule.actionFinished succeeded).2.progress.acting = none := by
  unfold Rule.actionFinished
  split
  · assumption
  · split <;> rfl

end Reports

section Start

variable (config : EngineConfig) (series : Nat) (now : Time)

theorem key_of_compile {config : RuleConfig} {engine : EngineConfig}
    {definition : RuleDefinition}
    (compiled : RuleDefinition.compile config engine = .ok definition) :
    definition.key = config.key := by
  unfold RuleDefinition.compile at compiled
  cases selector : Chain.parse config.selector with
  | error error =>
      rw [selector] at compiled
      cases compiled
  | ok chain =>
      cases excludes : RuleDefinition.readAll config.excludeSelectors with
      | error error =>
          rw [selector, excludes] at compiled
          cases compiled
      | ok chains =>
          rw [selector, excludes] at compiled
          cases compiled
          rfl

-- without this every equation about a compiled rule set would read its selectors
attribute [local irreducible] RuleDefinition.compile

/-- The rules that can be read keep their keys and order. -/
theorem keys_compileAll (slot : Nat) (configs : List RuleConfig) :
    ((RuleSet.compileAll config series now slot configs).1.map Rule.key).Sublist
      (configs.map (·.key)) := by
  induction configs generalizing slot with
  | nil => exact .slnil
  | cons first configs hypothesis =>
      rw [RuleSet.compileAll_cons]
      cases compiled : RuleDefinition.compile first config with
      | error error =>
          exact (hypothesis slot).cons _
      | ok definition =>
          have same : (Rule.start definition ⟨series, slot, 0⟩ now).key = first.key :=
            key_of_compile compiled
          rw [List.map_cons, List.map_cons, same]
          exact (hypothesis (slot + 1)).cons_cons _

theorem start_isSound (timing : Timing) (distinct : (config.rules.map (·.key)).Nodup) :
    (start config timing now).IsSound := by
  have sorted : (RuleSet.compile config 0 now).rules.Perm
      (RuleSet.compileAll config 0 now 0 config.rules).1 := List.mergeSort_perm _ _
  have idle : ∀ rule ∈ (RuleSet.compile config 0 now).rules, rule.progress.acting = none := by
    intro rule member
    obtain ⟨definition, token, rfl⟩ := RuleSet.exists_start_of_mem_compile member
    rfl
  refine ⟨?_, ?_, ?_, ?_, ?_, ?_⟩
  · exact (sorted.map Rule.key).nodup_iff.mpr
      (distinct.sublist (keys_compileAll config 0 now 0 config.rules))
  · intro rule member time acting
    rw [idle rule member] at acting
    cases acting
  · exact fun rule member acting => absurd (idle rule member) acting
  · exact fun rule _ overtaken => absurd overtaken List.not_mem_nil
  · exact fun request member => absurd member List.not_mem_nil
  · exact fun request member => absurd member List.not_mem_nil

end Start

section Steps

variable {ledger : Ledger}

/-- What a change of what is in front makes of a rule that acts afterwards. -/
theorem isOvertaken_of_acting {rule : Rule} {appChanged : Bool} {now : Time}
    (acting : (rule.identityChanged appChanged now).progress.acting ≠ none) :
    rule.isOvertaken appChanged now = true ∧ rule.identityChanged appChanged now = rule := by
  unfold Rule.identityChanged at acting ⊢
  unfold Rule.isOvertaken
  split at acting
  · exact absurd rfl acting
  · rename_i goesOn
    rw [if_neg goesOn, Bool.eq_false_iff.mpr goesOn]
    exact ⟨by simpa [Option.isSome_iff_ne_none] using acting, rfl⟩

theorem identityChanged_of_isOvertaken {rule : Rule} {appChanged : Bool} {now : Time}
    (overtaken : rule.isOvertaken appChanged now = true) :
    rule.identityChanged appChanged now = rule ∧ rule.progress.acting ≠ none := by
  unfold Rule.isOvertaken at overtaken
  obtain ⟨acting, goesOn⟩ := Bool.and_eq_true_iff.mp overtaken
  have same : rule.identityChanged appChanged now = rule := by
    unfold Rule.identityChanged
    rw [if_neg (by simpa using goesOn)]
  exact ⟨same, Option.isSome_iff_ne_none.mp acting⟩

theorem key_identityChanged (rule : Rule) (appChanged : Bool) (now : Time) :
    (rule.identityChanged appChanged now).key = rule.key := by
  unfold Rule.identityChanged
  split <;> rfl

theorem keys_changeIdentity (engine : Engine) (identity : Identity) (now : Time) :
    (engine.changeIdentity identity now).rules.rules.map Rule.key =
      engine.rules.rules.map Rule.key := by
  rw [Engine.rules_changeIdentity, List.map_map]
  exact List.map_congr_left fun rule _ => key_identityChanged rule _ now

/-- A change of what is in front leaves acting just the rules it overtakes, and every
outstanding request belongs to an older generation then. -/
theorem changeIdentity_isSound (sound : ledger.IsSound) (identity : Identity) (now : Time) :
    IsSound ⟨ledger.engine.changeIdentity identity now, ledger.outstanding,
      overtakes ledger.engine identity now⟩ := by
  have older : ∀ request ∈ ledger.outstanding,
      request.generation < ledger.engine.generation + 1 := fun request member =>
    Nat.lt_succ_of_le (sound.past request member)
  refine ⟨?_, ?_, ?_, ?_, ?_, ?_⟩
  · exact keys_changeIdentity ledger.engine identity now ▸ sound.distinct
  · intro after member time acting
    obtain ⟨rule, old, rfl⟩ := List.mem_map.mp member
    obtain ⟨_, same⟩ := isOvertaken_of_acting (Option.ne_none_iff_exists'.mpr ⟨time, acting⟩)
    rw [same] at acting ⊢
    exact sound.shown rule old time acting
  · intro after member acting
    obtain ⟨rule, old, rfl⟩ := List.mem_map.mp member
    obtain ⟨overtaken, same⟩ := isOvertaken_of_acting acting
    rw [same]
    exact .inl (List.mem_map.mpr ⟨rule, List.mem_filter.mpr ⟨old, overtaken⟩, rfl⟩)
  · intro after member overtaken
    obtain ⟨rule, old, rfl⟩ := List.mem_map.mp member
    obtain ⟨other, found, same⟩ := List.mem_map.mp overtaken
    obtain ⟨otherOld, otherOvertaken⟩ := List.mem_filter.mp found
    rw [key_identityChanged] at same
    obtain rfl := eq_of_key_eq sound.distinct otherOld old same
    obtain ⟨kept, acting⟩ := identityChanged_of_isOvertaken otherOvertaken
    rw [kept]
    exact acting
  · intro request member new
    exact absurd new (Nat.ne_of_lt (older request member))
  · intro request member
    exact Nat.le_of_lt (older request member)

/-- A pass emits requests for rules that were idle when it came upon them. -/
theorem look_emitted {engine : Engine} (fresh : engine.IsFresh) (host : Host) (request : PassRequest)
    {begun : List Effect} (quiet : requestsOf begun = []) (session : Session) :
    ∀ emitted ∈ requestsOf ((engine.look host request begun).answer session).2.2,
      ∃ rule ∈ engine.rules.rules, emitted.rule = rule.key ∧
        emitted.generation = engine.generation ∧ rule.progress.acting = none := by
  obtain ⟨visits, visited, emits⟩ := fresh.look_visited host request begun session
  rw [quiet] at emits
  intro emitted member
  obtain ⟨rule, node, acted, rfl⟩ :=
    ((emits emitted).mp member).resolve_left List.not_mem_nil
  obtain ⟨old, ready, _⟩ := visited.ready_of_acted acted
  exact ⟨rule, old, rfl, rfl, Rule.acting_eq_none_of_ready ready⟩

/-- A pass leaves a rule that was acting as it is; one that is acting now was or has a
request. -/
theorem look_outcome {engine : Engine} (fresh : engine.IsFresh) (host : Host) (request : PassRequest)
    {begun : List Effect} (quiet : requestsOf begun = []) (session : Session) :
    let outcome := (engine.look host request begun).answer session
    ∀ after ∈ outcome.1.rules.rules, ∃ rule ∈ engine.rules.rules,
      after.key = rule.key ∧ (after = rule ∨ rule.progress.acting = none ∧
        (after.progress.acting = none ∨ after.progress.acting = some request.now ∧
          after.status request.now = .acting ∧ ∃ emitted ∈ requestsOf outcome.2.2,
            emitted.rule = rule.key ∧ emitted.generation = engine.generation)) := by
  intro outcome after member
  obtain ⟨visits, visited, emits⟩ := fresh.look_visited host request begun session
  rw [quiet] at emits
  obtain ⟨rule, old, same | ⟨finding, made, settled⟩⟩ := visited.of_mem member
  · exact ⟨rule, old, congrArg Rule.key same, .inl same⟩
  · refine ⟨rule, old, congrArg (·.config.key) settled.definition_eq, ?_⟩
    cases settled with
    | same _ => exact .inl rfl
    | begins ready _ | abandons ready =>
        have idle := Rule.acting_eq_none_of_ready ready
        exact .inr ⟨idle, .inl idle⟩
    | dispatched node ready _ =>
        refine .inr ⟨Rule.acting_eq_none_of_ready ready, .inr ⟨rfl,
          Rule.status_dispatch ready, _, (emits _).mpr (.inr ⟨rule, node, made, rfl⟩), rfl, rfl⟩⟩

/-- A pass that has begun sets acting just the rules whose requests it emits. -/
theorem look_isSound (sound : ledger.IsSound) (fresh : ledger.engine.IsFresh) (host : Host)
    (request : PassRequest) {begun : List Effect} (quiet : requestsOf begun = []) (session : Session) :
    let outcome := (ledger.engine.look host request begun).answer session
    IsSound ⟨outcome.1, ledger.outstanding ++ requestsOf outcome.2.2, ledger.overtaken⟩ := by
  intro outcome
  obtain ⟨visits, visited, _⟩ := fresh.look_visited host request begun session
  have generation : outcome.1.generation = ledger.engine.generation :=
    congrArg (·.generation) (ledger.engine.look_rules host request begun session)
  have emitted := look_emitted fresh host request quiet session
  have outcomes := look_outcome fresh host request quiet session
  refine ⟨?_, ?_, ?_, ?_, ?_, ?_⟩
  · exact visited.keys_eq ▸ sound.distinct
  · intro after member time acting
    obtain ⟨rule, old, _, rfl | ⟨_, idle | ⟨now, shown, _⟩⟩⟩ := outcomes after member
    · exact sound.shown after old time acting
    · rw [idle] at acting
      cases acting
    · obtain rfl : request.now = time := Option.some.inj (now.symm.trans acting)
      exact shown
  · intro after member acting
    obtain ⟨rule, old, same, rfl | ⟨_, idle | ⟨_, _, made⟩⟩⟩ := outcomes after member
    · rcases sound.accounted after old acting with overtaken | ⟨earlier, outstanding, belongs⟩
      · exact .inl overtaken
      · refine .inr ⟨earlier, List.mem_append_left _ outstanding, belongs.1, ?_⟩
        exact belongs.2.trans generation.symm
    · exact absurd idle acting
    · obtain ⟨emitted, new, named, dated⟩ := made
      exact .inr ⟨emitted, List.mem_append_right _ new, named.trans same.symm,
        dated.trans generation.symm⟩
  · intro after member overtaken
    obtain ⟨rule, old, same, outcome⟩ := outcomes after member
    have acting := sound.stranded rule old (same ▸ overtaken)
    rcases outcome with rfl | ⟨idle, _⟩
    · exact acting
    · exact absurd idle acting
  · intro other member dated
    rcases List.mem_append.mp member with earlier | new
    · exact sound.current other earlier (dated.trans generation)
    · obtain ⟨rule, old, named, _, idle⟩ := emitted other new
      intro overtaken
      exact sound.stranded rule old (named ▸ overtaken) idle
  · intro other member
    rcases List.mem_append.mp member with earlier | new
    · exact Nat.le_trans (sound.past other earlier) (Nat.le_of_eq generation.symm)
    · obtain ⟨_, _, _, dated, _⟩ := emitted other new
      exact Nat.le_of_eq (dated.trans generation.symm)

theorem afterPass_isSound (sound : ledger.IsSound) (fresh : ledger.engine.IsFresh)
    (host : Host) (request : PassRequest) (session : Session) :
    (ledger.afterPass host request session).IsSound := by
  unfold afterPass Engine.runPass Engine.enter
  by_cases same : ledger.engine.identity = some request.identity
  · have begun : IsSound ⟨{ ledger.engine with passes := ledger.engine.passes + 1 },
        ledger.outstanding, ledger.overtaken⟩ :=
      ⟨sound.distinct, sound.shown, sound.accounted, sound.stranded, sound.current, sound.past⟩
    rw [if_pos same, if_pos same]
    exact look_isSound begun ⟨fresh.ascending, fresh.mem_iff⟩ host request rfl session
  · have changed := changeIdentity_isSound sound request.identity request.now
    have begun : IsSound ⟨{ ledger.engine with
        passes := ledger.engine.passes + 1 }.changeIdentity request.identity request.now,
        ledger.outstanding, overtakes ledger.engine request.identity request.now⟩ :=
      ⟨changed.distinct, changed.shown, changed.accounted, changed.stranded, changed.current,
        changed.past⟩
    rw [if_neg same, if_neg same]
    exact look_isSound begun (Engine.refreshApplicable_isFresh _) host request
      (Engine.requestsOf_matchDelays _ _) session

/-- A report changes the rule it names and no other. -/
theorem report_outcome {rules : List Rule} (distinct : (rules.map Rule.key).Nodup) (key : String)
    (succeeded : Bool) :
    ∀ after ∈ RuleSet.modifyFirst key (fun rule => (rule.actionFinished succeeded).2) rules,
      ∃ rule ∈ rules, after.key = rule.key ∧
        (rule.key = key ∧ after.progress.acting = none ∨ rule.key ≠ key ∧ after = rule) := by
  intro after found
  obtain ⟨rule, old, ⟨here, rfl⟩ | ⟨elsewhere, rfl⟩⟩ := mem_modifyFirst distinct found
  · exact ⟨rule, old, key_actionFinished rule succeeded,
      .inl ⟨here, acting_actionFinished rule succeeded⟩⟩
  · exact ⟨after, old, rfl, .inr ⟨elsewhere, rfl⟩⟩

/-- A rule that acts stays accounted for when a request is settled that is not its own. -/
theorem IsSound.accounted_erase (sound : ledger.IsSound) {request : ActionRequest} {rule : Rule}
    (member : rule ∈ ledger.engine.rules.rules) (acting : rule.progress.acting ≠ none)
    (other : request.rule = rule.key → request.generation ≠ ledger.engine.generation) :
    rule.key ∈ ledger.overtaken ∨ ∃ request' ∈ ledger.outstanding.erase request,
      request'.rule = rule.key ∧ request'.generation = ledger.engine.generation := by
  rcases sound.accounted rule member acting with overtaken | ⟨own, outstanding, named, current⟩
  · exact .inl overtaken
  · have different : own ≠ request := by
      rintro rfl
      exact other named current
    exact .inr ⟨own, (List.mem_erase_of_ne different).mpr outstanding, named, current⟩

/-- A report makes its rule idle, unless it comes from an older generation. -/
theorem afterReport_isSound (sound : ledger.IsSound) {request : ActionRequest}
    (member : request ∈ ledger.outstanding) (succeeded : Bool) :
    (ledger.afterReport request succeeded).IsSound := by
  have fewer : ∀ other ∈ ledger.outstanding.erase request, other ∈ ledger.outstanding :=
    fun other => List.mem_of_mem_erase
  unfold afterReport Engine.actionFinished
  by_cases dated : request.generation = ledger.engine.generation
  · have changed := report_outcome sound.distinct request.rule succeeded
    rw [if_pos dated]
    refine ⟨?_, ?_, ?_, ?_, ?_, ?_⟩
    · have keys : (RuleSet.modifyFirst request.rule (fun rule => (rule.actionFinished
          succeeded).2) ledger.engine.rules.rules).map Rule.key =
            ledger.engine.rules.rules.map Rule.key :=
        keys_modifyFirst request.rule fun rule => key_actionFinished rule succeeded
      exact keys.symm ▸ sound.distinct
    · intro after found time acting
      obtain ⟨rule, old, _, ⟨_, idle⟩ | ⟨_, rfl⟩⟩ := changed after found
      · rw [idle] at acting
        cases acting
      · exact sound.shown after old time acting
    · intro after found acting
      obtain ⟨rule, old, _, ⟨_, idle⟩ | ⟨elsewhere, rfl⟩⟩ := changed after found
      · exact absurd idle acting
      · exact sound.accounted_erase old acting fun named => absurd named.symm elsewhere
    · intro after found overtaken
      obtain ⟨rule, old, same, ⟨here, _⟩ | ⟨_, rfl⟩⟩ := changed after found
      · rw [same, here] at overtaken
        exact absurd overtaken (sound.current request member dated)
      · exact sound.stranded after old overtaken
    · exact fun other found => sound.current other (fewer other found)
    · exact fun other found => sound.past other (fewer other found)
  · rw [if_neg dated]
    refine ⟨sound.distinct, sound.shown, ?_, sound.stranded, ?_, ?_⟩
    · intro rule old acting
      exact sound.accounted_erase old acting fun _ => dated
    · exact fun other found => sound.current other (fewer other found)
    · exact fun other found => sound.past other (fewer other found)

theorem Reached.isFresh {config : EngineConfig} {timing : Timing} {now : Time}
    (reached : Reached config timing now ledger) : ledger.engine.IsFresh := by
  induction reached with
  | refl => exact Engine.start_isFresh config timing now
  | tail _ step hypothesis =>
      cases step with
      | pass host request session => exact hypothesis.react (.pass host request session)
      | report request succeeded member =>
          exact hypothesis.react (.report request.rule request.generation succeeded)

/-- The invariant holds in every reachable ledger. -/
theorem Reached.isSound {config : EngineConfig} {timing : Timing} {now : Time}
    (reached : Reached config timing now ledger)
    (distinct : (config.rules.map (·.key)).Nodup) : ledger.IsSound := by
  induction reached with
  | refl => exact start_isSound config now timing distinct
  | tail reached step hypothesis =>
      cases step with
      | pass host request session =>
          exact afterPass_isSound hypothesis (Reached.isFresh reached) host request session
      | report request succeeded member => exact afterReport_isSound hypothesis member succeeded

end Steps

/-- Once every request was reported, the rules left acting are those that the last change
of what is in front overtook: it came after their dispatch and before their report, and
did not start them anew. -/
theorem acting_iff_overtaken {config : EngineConfig} {timing : Timing} {now : Time}
    {ledger : Ledger} (distinct : (config.rules.map (·.key)).Nodup)
    (reached : Reached config timing now ledger) (settled : ledger.outstanding = [])
    {rule : Rule} (member : rule ∈ ledger.engine.rules.rules) :
    (∃ time, rule.status time = .acting) ↔ rule.key ∈ ledger.overtaken := by
  have sound := reached.isSound distinct
  constructor
  · rintro ⟨time, shown⟩
    rcases sound.accounted rule member (Rule.acting_ne_none_of_acting shown) with overtaken | made
    · exact overtaken
    · obtain ⟨request, outstanding, _⟩ := made
      rw [settled] at outstanding
      exact absurd outstanding List.not_mem_nil
  · intro overtaken
    obtain ⟨time, acting⟩ :=
      Option.ne_none_iff_exists'.mp (sound.stranded rule member overtaken)
    exact ⟨time, sound.shown rule member time acting⟩

section Overtaken

/-- One rule for a button. -/
def skipConfig : EngineConfig := { rules := [{ key := "k", selector := "[text=\"Skip\"]" }] }

/-- A tree with such a button. -/
def skipHost : Host :=
  .serving (.node { appId := some "a" } [.node { text := some "Skip" } []]) [] true

/-- A pass while an activity is in front. -/
def passIn (activity : String) (now : Time) : PassRequest :=
  ⟨none, ⟨"a", activity, 0⟩, .notification, now⟩

/-- The rule acts in one activity, another one of the same application comes to the
front, and then the action is reported. -/
def overtakenLedger : Ledger :=
  (((start skipConfig {} 0).afterPass skipHost (passIn "a.A" 0) (.fresh 0)).afterPass
    skipHost (passIn "a.B" 10) (.fresh 0)).afterReport ⟨"k", 1, .click, 1⟩ true

theorem overtakenLedger_reached : Reached skipConfig {} 0 overtakenLedger := by
  have emitted : ⟨"k", 1, .click, 1⟩ ∈
      (((start skipConfig {} 0).afterPass skipHost (passIn "a.A" 0) (.fresh 0)).afterPass
        skipHost (passIn "a.B" 10) (.fresh 0)).outstanding := by decide +kernel
  have first : Reached skipConfig {} 0
      ((start skipConfig {} 0).afterPass skipHost (passIn "a.A" 0) (.fresh 0)) :=
    .single (.pass _ _ _ _)
  exact (first.tail (.pass _ skipHost (passIn "a.B" 10) (.fresh 0))).tail
    (.report _ _ true emitted)

/-- The overtaken rule is left acting. -/
theorem overtakenLedger_acting :
    overtakenLedger.outstanding = [] ∧ overtakenLedger.engine.rules.rules ≠ [] ∧
      ∀ rule ∈ overtakenLedger.engine.rules.rules,
        rule.key ∈ overtakenLedger.overtaken ∧ ∃ time, rule.status time = .acting := by
  have distinct : (skipConfig.rules.map (·.key)).Nodup := by decide
  have settled : overtakenLedger.outstanding = [] := by decide +kernel
  have overtaken : ∀ rule ∈ overtakenLedger.engine.rules.rules,
      rule.key ∈ overtakenLedger.overtaken := by decide +kernel
  refine ⟨settled, by decide +kernel, fun rule member => ⟨overtaken rule member, ?_⟩⟩
  exact (acting_iff_overtaken distinct overtakenLedger_reached settled member).mpr
    (overtaken rule member)

/-- A rule can be left acting though its action was reported. -/
theorem acting_after_report :
    ¬ ∀ (config : EngineConfig) (timing : Timing) (now : Time) (ledger : Ledger),
      (config.rules.map (·.key)).Nodup → Reached config timing now ledger →
        ledger.outstanding = [] → ∀ rule ∈ ledger.engine.rules.rules, ∀ time,
          rule.status time ≠ .acting := by
  intro never
  have idle := never skipConfig {} 0 overtakenLedger (by decide) overtakenLedger_reached
    (by decide +kernel)
  have shown : ∃ rule ∈ overtakenLedger.engine.rules.rules, rule.status 100000 = .acting := by
    decide +kernel
  obtain ⟨rule, member, acting⟩ := shown
  exact idle rule member 100000 acting

end Overtaken

end Ledger

end TreeSelector

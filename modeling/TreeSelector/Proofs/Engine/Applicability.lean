import Mathlib.Data.List.Sort
import TreeSelector.Proofs.Engine.Tokens

/-!
# The rules that apply

An engine keeps the places of the rules that apply to what is in front.  They could become
stale when something else comes to the front and when another configuration puts other rules
at these places, and just then they are found anew.  So every pass visits the rules that
apply, in their order, and no place leads it to another rule or to none.
-/

namespace TreeSelector

open Reading (answer_bind)

theorem RuleSet.placesWhere_eq_findIdxs (set : RuleSet) (test : Rule → Bool) :
    set.placesWhere test = set.rules.findIdxs test := by
  rw [placesWhere, List.findIdxs_eq_filterMap_zipIdx, ← List.filterMap_eq_map,
    List.filterMap_filter]
  refine List.filterMap_congr fun found _ => ?_
  cases passes : test found.1 <;> simp [passes]

namespace Rule

section Tours

variable (host : Host) (request : PassRequest) (roots : List NodeId) (test : Rule → Bool)

/-- Goes through some rules and visits those that pass a test, up to one that ends the
pass. -/
def tour : List Rule → Reading (List Rule × List Visit)
  | [] => return ([], [])
  | rule :: rules => do
      if test rule then
        let (after, finding) ← rule.visit host request roots
        if finding.endsPass then return (after :: rules, [⟨rule, finding⟩])
        let (rules, visits) ← tour rules
        return (after :: rules, ⟨rule, finding⟩ :: visits)
      else
        let (rules, visits) ← tour rules
        return (rule :: rules, visits)

/-- To visit the rules at the places of those that pass a test is to go through all rules
and to visit those. -/
theorem visitAll_findIdxs (front rules : List Rule) :
    visitAll host request roots (rules.findIdxs test front.length) (front ++ rules) = (do
      let toured ← tour host request roots test rules
      return (front ++ toured.1, toured.2)) := by
  induction rules generalizing front with
  | nil => rfl
  | cons rule rules hypothesis =>
      have later (first : Rule) :
          visitAll host request roots (rules.findIdxs test (front.length + 1))
            (front ++ first :: rules) = (do
          let toured ← tour host request roots test rules
          return (front ++ first :: toured.1, toured.2)) := by
        simpa using hypothesis (front ++ [first])
      rw [List.findIdxs_cons, tour]
      by_cases passes : test rule
      · have found : (front ++ rule :: rules)[front.length]? = some rule := by simp
        rw [if_pos passes, if_pos passes, visitAll, found]
        simp only [bind_assoc]
        refine bind_congr fun outcome => ?_
        obtain ⟨after, finding⟩ := outcome
        have changed : (front ++ rule :: rules).set front.length after =
            front ++ after :: rules := by
          simp
        dsimp only
        rw [changed]
        by_cases ends : finding.endsPass
        · rw [if_pos ends, if_pos ends]
          rfl
        · rw [if_neg ends, if_neg ends, later]
          simp only [bind_assoc, pure_bind]
      · rw [if_neg passes, if_neg passes, later]
        simp only [bind_assoc, pure_bind]

/-- Going through rules visits some of them and passes over the others. -/
theorem visited_tour (rules : List Rule) (session : Session) :
    Visited request.now rules ((tour host request roots test rules).answer session).1
      ((tour host request roots test rules).answer session).2 := by
  induction rules generalizing session with
  | nil => exact .nil
  | cons rule rules hypothesis =>
      rw [tour]
      split
      · rw [answer_bind]
        have settled := visit_settled rule host request roots session
        generalize (rule.visit host request roots).answer session = outcome at settled ⊢
        obtain ⟨after, finding⟩ := outcome
        dsimp only
        by_cases ends : finding.endsPass
        · rw [if_pos ends]
          exact .visit settled (.refl rules)
        · rw [if_neg ends]
          exact .visit settled (hypothesis _)
      · exact .skip (hypothesis session)

end Tours

end Rule

namespace Engine

/-- The places that an engine keeps are those of the rules that apply to what is in front, in
their order. -/
structure IsFresh (engine : Engine) : Prop where
  ascending : engine.applicable.Pairwise (· < ·)
  mem_iff : ∀ place, place ∈ engine.applicable ↔
    ∃ rule, engine.rules.rules[place]? = some rule ∧ engine.applies rule = true

section Freshness

variable {engine newer : Engine}

theorem mem_findIdxs_iff {rules : List Rule} {test : Rule → Bool} {place : Nat} :
    place ∈ rules.findIdxs test ↔ ∃ rule, rules[place]? = some rule ∧ test rule = true := by
  rw [List.mem_findIdxs_iff_exists_getElem_pos]
  constructor
  · rintro ⟨inside, passes⟩
    exact ⟨_, List.getElem?_eq_getElem inside, passes⟩
  · rintro ⟨rule, found, passes⟩
    obtain ⟨inside, rfl⟩ := List.getElem?_eq_some_iff.mp found
    exact ⟨inside, passes⟩

theorem isFresh_iff :
    engine.IsFresh ↔ engine.applicable = engine.rules.rules.findIdxs engine.applies := by
  constructor
  · rintro ⟨ascending, mem_iff⟩
    refine ascending.eq_of_mem_iff List.pairwise_findIdxs fun place => ?_
    rw [mem_iff, mem_findIdxs_iff]
  · intro same
    refine ⟨same ▸ List.pairwise_findIdxs, fun place => ?_⟩
    rw [same, mem_findIdxs_iff]

/-- Whatever places an engine kept, the ones that it finds are right. -/
theorem refreshApplicable_isFresh (engine : Engine) : engine.refreshApplicable.IsFresh :=
  isFresh_iff.mpr (engine.rules.placesWhere_eq_findIdxs engine.applies)

/-- At the beginning nothing is in front, and no rule applies. -/
theorem start_isFresh (config : EngineConfig) (timing : Timing) (now : Time) :
    (start config timing now).IsFresh where
  ascending := .nil
  mem_iff := by simp [start, applies]

/-- Places stay right as long as the same rules stay there and the same is in front. -/
theorem IsFresh.of_definitions (fresh : engine.IsFresh)
    (applicable : newer.applicable = engine.applicable)
    (identity : newer.identity = engine.identity)
    (definitions : newer.rules.rules.map (·.definition) =
      engine.rules.rules.map (·.definition)) : newer.IsFresh := by
  let test : RuleDefinition → Bool := fun definition => engine.identity.any definition.appliesTo
  have applies : engine.applies = test ∘ Rule.definition := rfl
  have applies' : newer.applies = test ∘ Rule.definition := by
    funext rule
    rw [Engine.applies, identity]
    rfl
  rw [isFresh_iff] at fresh ⊢
  rw [applicable, fresh, applies, applies', ← List.findIdxs_map, ← List.findIdxs_map]
  exact congrArg (·.findIdxs test) definitions.symm

theorem Advances.definitions_eq (advances : engine.Advances newer) :
    newer.rules.rules.map (·.definition) = engine.rules.rules.map (·.definition) := by
  have rules := advances.rules
  generalize engine.rules.rules = before at rules ⊢
  generalize newer.rules.rules = after at rules ⊢
  induction rules with
  | nil => rfl
  | cons advances _ hypothesis => rw [List.map_cons, List.map_cons, advances.definition, hypothesis]

theorem IsFresh.enter (fresh : engine.IsFresh) (request : PassRequest) :
    (engine.enter request).1.IsFresh := by
  simp only [Engine.enter]
  split
  · exact ⟨fresh.ascending, fresh.mem_iff⟩
  · exact refreshApplicable_isFresh _

theorem IsFresh.react (fresh : engine.IsFresh) (event : Event) :
    (engine.react event).IsFresh := by
  cases event with
  | pass host request session =>
      have begun := fresh.enter request
      have definitions := (engine.passed_advances host request session).definitions_eq
      have same := engine.passed_rules host request session
      exact begun.of_definitions (congrArg (·.applicable) same) (congrArg (·.identity) same)
        definitions
  | report key generation succeeded =>
      have advances : engine.Advances (engine.react (.report key generation succeeded)) :=
        engine.react_advances (by simp)
      refine fresh.of_definitions ?_ ?_ advances.definitions_eq
      all_goals
        simp only [Engine.react, actionFinished]
        split <;> rfl
  | reset key now =>
      have advances : engine.Advances (engine.react (.reset key now)) :=
        engine.react_advances (by simp)
      exact fresh.of_definitions rfl rfl advances.definitions_eq
  | configure config now => exact refreshApplicable_isFresh _

theorem IsFresh.run (fresh : engine.IsFresh) (events : List Event) :
    (engine.run events).IsFresh := by
  induction events generalizing engine with
  | nil => exact fresh
  | cons event events hypothesis => exact hypothesis (fresh.react event)

/-- A pass goes through all rules and visits those that apply to what is in front. -/
theorem IsFresh.visitAll_eq_tour (fresh : engine.IsFresh) (host : Host) (request : PassRequest)
    (roots : List NodeId) :
    Rule.visitAll host request roots engine.applicable engine.rules.rules =
      Rule.tour host request roots engine.applies engine.rules.rules := by
  rw [isFresh_iff.mp fresh]
  simpa using Rule.visitAll_findIdxs host request roots engine.applies [] engine.rules.rules

/-- The match delays of an engine are those of the rules that apply to what is in front and
are not eligible yet. -/
theorem IsFresh.mem_matchDelays_iff (fresh : engine.IsFresh) {now : Time} {effect : Effect} :
    effect ∈ engine.matchDelays now ↔ ∃ rule ∈ engine.rules.rules,
      engine.applies rule = true ∧ rule.status now = .pendingMatchDelay ∧
        effect = .armMatchDelay rule.key rule.readyAt rule.token := by
  simp only [matchDelays, List.mem_filterMap, fresh.mem_iff, Option.bind_eq_bind,
    Option.bind_eq_some_iff]
  constructor
  · rintro ⟨place, ⟨rule, found, applies⟩, rule', found', armed⟩
    obtain rfl := Option.some.inj (found.symm.trans found')
    split at armed
    · rename_i pending
      exact ⟨rule, List.mem_of_getElem? found, applies, pending, (Option.some.inj armed).symm⟩
    · cases armed
  · rintro ⟨rule, member, applies, pending, rfl⟩
    obtain ⟨place, found⟩ := List.mem_iff_getElem?.mp member
    exact ⟨place, ⟨rule, found, applies⟩, rule, found, if_pos pending⟩

end Freshness

section Passes

variable {engine : Engine} (fresh : engine.IsFresh) (host : Host) (request : PassRequest)

include fresh

/-- A pass that has begun visits some rules in their order, and ends with a visit if that
ends passes. -/
theorem IsFresh.look_visits (begun : List Effect) (session : Session) :
    let outcome := (engine.look host request begun).answer session
    ∃ visits, Rule.Visited request.now engine.rules.rules outcome.1.rules.rules visits ∧
      outcome.2.1.generation = engine.generation ∧
      outcome.2.1.matched = (visits.filter (·.finding.isMatch)).map (·.rule.key) ∧
      outcome.2.2 = begun ++ engine.visitEffects request visits ∧
      visits.Pairwise fun earlier _ => earlier.finding.endsPass = false := by
  refine engine.look_visits_of host request begun session (.refl _) fun roots session => ?_
  rw [fresh.visitAll_eq_tour]
  exact Rule.visited_tour host request roots engine.applies engine.rules.rules session

/-- The requests that a pass adds are those of the visits that act. -/
theorem IsFresh.look_visited (begun : List Effect) (session : Session) :
    let outcome := (engine.look host request begun).answer session
    ∃ visits, Rule.Visited request.now engine.rules.rules outcome.1.rules.rules visits ∧
      ∀ emitted, emitted ∈ requestsOf outcome.2.2 ↔ emitted ∈ requestsOf begun ∨
        ∃ rule node, ⟨rule, .acted node⟩ ∈ visits ∧
          emitted = ⟨rule.key, node, rule.config.action, engine.generation⟩ := by
  intro outcome
  obtain ⟨visits, visited, _, _, effects, _⟩ := fresh.look_visits host request begun session
  refine ⟨visits, visited, fun emitted => ?_⟩
  have added : requestsOf outcome.2.2 =
      requestsOf begun ++ requestsOf (engine.visitEffects request visits) := by
    rw [← requestsOf_append]
    exact congrArg requestsOf effects
  rw [added, List.mem_append, mem_requestsOf_visitEffects]

/-- A pass visits the rules in the order in which it finds them when it has begun; what it
matches and which effects it has are read off its visits. -/
theorem IsFresh.passed_visits (session : Session) :
    let begun := engine.enter request
    let outcome := engine.passed host request session
    ∃ visits, Rule.Visited request.now begun.1.rules.rules outcome.1.rules.rules visits ∧
      outcome.2.1.matched = (visits.filter (·.finding.isMatch)).map (·.rule.key) ∧
      outcome.2.2 = begun.2 ++ begun.1.visitEffects request visits := by
  intro begun outcome
  obtain ⟨visits, visited, _, matched, effects, _⟩ :=
    (fresh.enter request).look_visits host request begun.2 session
  exact ⟨visits, visited, matched, effects⟩

end Passes

end Engine

end TreeSelector

import Mathlib.Data.List.Basic
import TreeSelector.Engine.Basic
import TreeSelector.Proofs.Reading.Follows
import TreeSelector.Proofs.Rule.Status

/-!
# What a pass makes of rules

A pass leaves a rule as it was unless the rule was ready.  A ready rule may begin to
wait, stop waiting or dispatch its action, and each dispatch has its request among the
effects of the pass.  All this is so whatever places the engine keeps as those of the rules
that apply.
-/

namespace TreeSelector

open Reading (answer_bind answer_pure)

namespace Effect

/-- The request of an effect that is one. -/
def request? : Effect → Option ActionRequest
  | act request => some request
  | _ => none

end Effect

/-- The requests among some effects. -/
def requestsOf (effects : List Effect) : List ActionRequest :=
  effects.filterMap Effect.request?

namespace Rule

/-- What a visit at a given time may make of a rule, and what is found with it. -/
inductive Settled (now : Time) (rule : Rule) : Rule → Finding → Prop where
  | same {finding : Finding} : (∀ node, finding ≠ .acted node) → Settled now rule rule finding
  | begins :
      rule.status now = .ready → rule.needsActionDelay = true →
      Settled now rule (rule.beginActionDelay now) (.waiting (rule.actionDueFrom now))
  | abandons :
      rule.status now = .ready → Settled now rule rule.abandonActionDelay .missed
  | dispatched (node : NodeId) :
      rule.status now = .ready → rule.needsActionDelay = false →
      Settled now rule (rule.dispatch now) (.acted node)

/-- What visits to the rules at some places, one after the other, make of a list of rules. -/
inductive Revised (now : Time) : List Rule → List Rule → List Visit → Prop where
  | done (rules : List Rule) : Revised now rules rules []
  | visit {rules afters : List Rule} {place : Nat} {rule after : Rule} {finding : Finding}
      {visits : List Visit} :
      rules[place]? = some rule → Settled now rule after finding →
      Revised now (rules.set place after) afters visits →
      Revised now rules afters (⟨rule, finding⟩ :: visits)

/-- What visits to some of a list of rules, in their order, make of the list. -/
inductive Visited (now : Time) : List Rule → List Rule → List Visit → Prop where
  | nil : Visited now [] [] []
  | skip {rule : Rule} {rules afters : List Rule} {visits : List Visit} :
      Visited now rules afters visits → Visited now (rule :: rules) (rule :: afters) visits
  | visit {rule after : Rule} {finding : Finding} {rules afters : List Rule}
      {visits : List Visit} :
      Settled now rule after finding → Visited now rules afters visits →
      Visited now (rule :: rules) (after :: afters) (⟨rule, finding⟩ :: visits)

theorem Visited.refl {now : Time} (rules : List Rule) : Visited now rules rules [] := by
  induction rules with
  | nil => exact .nil
  | cons rule rules hypothesis => exact .skip hypothesis

/-- A rule whose action was not reported is not ready. -/
theorem acting_eq_none_of_ready {rule : Rule} {now : Time} (ready : rule.status now = .ready) :
    rule.progress.acting = none :=
  (status_eq_ready_iff.mp ready).idle

section Visits

variable (rule : Rule) (host : Host) (request : PassRequest)

theorem settle_settled (ready : rule.status request.now = .ready) (node : NodeId)
    (owner : Option String) :
    Settled request.now rule (rule.settle request node owner).1
      (rule.settle request node owner).2 := by
  unfold settle
  split
  · exact .same fun node => nofun
  · split
    · exact .begins ready ‹_›
    · exact .dispatched node ready (Bool.eq_false_iff.mpr ‹_›)

theorem miss_settled (ready : rule.status request.now = .ready) :
    Settled request.now rule (rule.miss request.now).1 (rule.miss request.now).2 := by
  unfold miss
  split
  · exact .abandons ready
  · exact .same fun node => nofun

theorem visit_settled (roots : List NodeId) (session : Session) :
    Settled request.now rule ((rule.visit host request roots).answer session).1
      ((rule.visit host request roots).answer session).2 := by
  unfold visit
  split
  · rename_i ready
    rw [answer_bind]
    cases (rule.query (host.view rule.definition.revisitsTree) roots).answer session with
    | hit node => exact settle_settled rule request ready node _
    | miss => exact miss_settled rule request ready
    | excluded => exact miss_settled rule request ready
  · exact .same fun node => nofun

theorem revised_visitAll (roots : List NodeId) (places : List Nat) (rules : List Rule)
    (session : Session) :
    Revised request.now rules ((visitAll host request roots places rules).answer session).1
      ((visitAll host request roots places rules).answer session).2 := by
  induction places generalizing rules session with
  | nil => exact .done rules
  | cons place places hypothesis =>
      rw [visitAll]
      cases found : rules[place]? with
      | none => exact .done rules
      | some rule =>
          dsimp only
          rw [answer_bind]
          have settled := visit_settled rule host request roots session
          generalize (rule.visit host request roots).answer session = outcome at settled ⊢
          obtain ⟨after, finding⟩ := outcome
          dsimp only
          by_cases ends : finding.endsPass
          · rw [if_pos ends]
            exact .visit found settled (.done _)
          · rw [if_neg ends]
            exact .visit found settled (hypothesis _ _)

/-- After a visit that ends the pass there is none. -/
theorem visitAll_pairwise (roots : List NodeId) (places : List Nat) (rules : List Rule)
    (session : Session) :
    ((visitAll host request roots places rules).answer session).2.Pairwise
      fun earlier _ => earlier.finding.endsPass = false := by
  induction places generalizing rules session with
  | nil => exact .nil
  | cons place places hypothesis =>
      rw [visitAll]
      cases rules[place]? with
      | none => exact .nil
      | some rule =>
          dsimp only
          rw [answer_bind]
          generalize (rule.visit host request roots).answer session = outcome
          obtain ⟨after, finding⟩ := outcome
          dsimp only
          by_cases ends : finding.endsPass
          · rw [if_pos ends]
            exact List.pairwise_singleton _ _
          · rw [if_neg ends]
            exact List.pairwise_cons.mpr ⟨fun _ _ => Bool.eq_false_iff.mpr ends, hypothesis _ _⟩

end Visits

section Outcomes

variable {now : Time} {rules afters : List Rule} {visits : List Visit}

theorem Settled.definition_eq {rule after : Rule} {finding : Finding}
    (settled : Settled now rule after finding) : after.definition = rule.definition := by
  cases settled <;> rfl

theorem Visited.keys_eq (visited : Visited now rules afters visits) :
    afters.map Rule.key = rules.map Rule.key := by
  induction visited with
  | nil => rfl
  | skip _ hypothesis => rw [List.map_cons, List.map_cons, hypothesis]
  | visit settled _ hypothesis =>
      rw [List.map_cons, List.map_cons, hypothesis, key, key, settled.definition_eq]

/-- Every rule is left as it was or is what its visit made of it. -/
theorem Visited.of_mem (visited : Visited now rules afters visits) {after : Rule}
    (member : after ∈ afters) :
    ∃ rule ∈ rules, after = rule ∨
      ∃ finding, ⟨rule, finding⟩ ∈ visits ∧ Settled now rule after finding := by
  induction visited with
  | nil => cases member
  | skip _ hypothesis =>
      rcases List.mem_cons.mp member with rfl | later
      · exact ⟨_, List.mem_cons_self, .inl rfl⟩
      · obtain ⟨rule, old, outcome⟩ := hypothesis later
        exact ⟨rule, List.mem_cons_of_mem _ old, outcome⟩
  | visit settled _ hypothesis =>
      rcases List.mem_cons.mp member with rfl | later
      · exact ⟨_, List.mem_cons_self, .inr ⟨_, List.mem_cons_self, settled⟩⟩
      · obtain ⟨rule, old, outcome⟩ := hypothesis later
        refine ⟨rule, List.mem_cons_of_mem _ old, ?_⟩
        rcases outcome with same | ⟨finding, made, settled⟩
        · exact .inl same
        · exact .inr ⟨finding, List.mem_cons_of_mem _ made, settled⟩

/-- Visits are made to rules of the list, and one that acts finds the rule ready and in no
need to wait. -/
theorem Visited.ready_of_acted (visited : Visited now rules afters visits) {rule : Rule}
    {node : NodeId} (made : ⟨rule, .acted node⟩ ∈ visits) :
    rule ∈ rules ∧ rule.status now = .ready ∧ rule.needsActionDelay = false := by
  induction visited with
  | nil => cases made
  | skip _ hypothesis =>
      obtain ⟨old, ready⟩ := hypothesis made
      exact ⟨List.mem_cons_of_mem _ old, ready⟩
  | visit settled _ hypothesis =>
      rcases List.mem_cons.mp made with here | later
      · obtain ⟨rfl, rfl⟩ := Visit.mk.inj here
        refine ⟨List.mem_cons_self, ?_⟩
        cases settled with
        | same quiet => exact absurd rfl (quiet node)
        | dispatched _ ready waited => exact ⟨ready, waited⟩
      · obtain ⟨old, ready⟩ := hypothesis later
        exact ⟨List.mem_cons_of_mem _ old, ready⟩

/-- A rule that dispatches its action has status acting at that moment. -/
theorem status_dispatch {rule : Rule} (ready : rule.status now = .ready) :
    (rule.dispatch now).status now = .acting := by
  obtain ⟨⟨included, sound, unused, lasting⟩, eligible, _⟩ := status_eq_ready_iff.mp ready
  have inForce : (rule.dispatch now).IsInForce now := ⟨included, sound, unused, lasting⟩
  have eligible' : ¬ now < (rule.dispatch now).readyAt := eligible
  rw [inForce.status_eq, if_neg eligible']
  rfl

end Outcomes

/-- The request of a visit that acts. -/
def request? (generation : Nat) (visit : Visit) : Option ActionRequest :=
  match visit.finding with
  | .acted node => some ⟨visit.rule.key, node, visit.rule.config.action, generation⟩
  | _ => none

def requestsAt (generation : Nat) (visits : List Visit) : List ActionRequest :=
  visits.filterMap (request? generation)

end Rule

namespace Engine

theorem requestsOf_append (effects effects' : List Effect) :
    requestsOf (effects ++ effects') = requestsOf effects ++ requestsOf effects' :=
  List.filterMap_append

theorem requestsOf_matchDelays (engine : Engine) (now : Time) :
    requestsOf (engine.matchDelays now) = [] := by
  unfold requestsOf matchDelays
  rw [List.filterMap_filterMap, List.filterMap_eq_nil_iff]
  intro place _
  cases engine.rules.rules[place]? with
  | none => rfl
  | some rule =>
      rw [Option.bind_eq_bind, Option.bind_some]
      split <;> rfl

theorem requestsOf_enter (engine : Engine) (request : PassRequest) :
    requestsOf (engine.enter request).2 = [] := by
  unfold enter
  dsimp only
  split
  · rfl
  · exact requestsOf_matchDelays _ _

/-- The requests of a pass are those of the visits that act. -/
theorem requestsOf_visitEffects (engine : Engine) (request : PassRequest)
    (visits : List Visit) :
    requestsOf (engine.visitEffects request visits) =
      Rule.requestsAt engine.generation visits := by
  have recheck : requestsOf (if visits.any (·.asksAgain request.now
      engine.timing.triggerRecheckWindow.toNat) then [.recheck] else []) = [] := by
    split <;> rfl
  simp only [visitEffects]
  rw [requestsOf_append, recheck, List.append_nil, requestsOf, List.filterMap_filterMap]
  apply List.filterMap_congr
  intro visit _
  simp only [Visit.effect?, Rule.request?]
  cases visit.finding <;> rfl

theorem mem_requestsOf_visitEffects (engine : Engine) (request : PassRequest)
    (visits : List Visit) (emitted : ActionRequest) :
    emitted ∈ requestsOf (engine.visitEffects request visits) ↔
      ∃ rule node, ⟨rule, .acted node⟩ ∈ visits ∧
        emitted = ⟨rule.key, node, rule.config.action, engine.generation⟩ := by
  rw [requestsOf_visitEffects, Rule.requestsAt, List.mem_filterMap]
  constructor
  · rintro ⟨⟨rule, finding⟩, member, emits⟩
    simp only [Rule.request?] at emits
    split at emits
    · exact ⟨rule, _, member, (Option.some.inj emits).symm⟩
    · cases emits
  · rintro ⟨rule, node, member, rfl⟩
    exact ⟨⟨rule, .acted node⟩, member, rfl⟩

theorem visitEffects_nil (engine : Engine) (request : PassRequest) :
    engine.visitEffects request [] = [] := rfl

/-- A pass that has begun changes nothing but the rules. -/
theorem look_rules (engine : Engine) (host : Host) (request : PassRequest)
    (begun : List Effect) (session : Session) :
    ((engine.look host request begun).answer session).1 =
      { engine with
        rules := { engine.rules with
          rules := ((engine.look host request begun).answer session).1.rules.rules } } := by
  simp only [look]
  split
  · simp only [answer_bind]
    split <;> rfl
  · rfl

/-- What a pass that has begun reports and which effects it adds are read off its visits;
of these and of the rules after it holds what holds however the rules are visited. -/
theorem look_visits_of (engine : Engine) (host : Host) (request : PassRequest)
    (begun : List Effect) (session : Session) {visiting : List Rule → List Visit → Prop}
    (untouched : visiting engine.rules.rules [])
    (visited : ∀ roots session,
      let outcome := (Rule.visitAll host request roots engine.applicable
        engine.rules.rules).answer session
      visiting outcome.1 outcome.2) :
    let outcome := (engine.look host request begun).answer session
    ∃ visits, visiting outcome.1.rules.rules visits ∧
      outcome.2.1.generation = engine.generation ∧
      outcome.2.1.matched = (visits.filter (·.finding.isMatch)).map (·.rule.key) ∧
      outcome.2.2 = begun ++ engine.visitEffects request visits ∧
      visits.Pairwise fun earlier _ => earlier.finding.endsPass = false := by
  unfold look
  split
  · rw [answer_bind]
    generalize (roots host request.batch).answer session = found
    obtain ⟨below, fromRoot⟩ := found
    dsimp only
    by_cases none : below.isEmpty
    · rw [if_pos none]
      exact ⟨[], untouched, rfl, rfl, by simp [answer_pure, visitEffects_nil], .nil⟩
    · rw [if_neg none, answer_bind]
      have ended := Rule.visitAll_pairwise host request below engine.applicable
        engine.rules.rules ((roots host request.batch).after session)
      exact ⟨_, visited below _, rfl, rfl, rfl, ended⟩
  · exact ⟨[], untouched, rfl, rfl, by simp [answer_pure, visitEffects_nil], .nil⟩

/-- A pass that has begun visits rules, and ends with a visit if that ends passes. -/
theorem look_revises (engine : Engine) (host : Host) (request : PassRequest)
    (begun : List Effect) (session : Session) :
    let outcome := (engine.look host request begun).answer session
    ∃ visits, Rule.Revised request.now engine.rules.rules outcome.1.rules.rules visits ∧
      outcome.2.1.generation = engine.generation ∧
      outcome.2.1.matched = (visits.filter (·.finding.isMatch)).map (·.rule.key) ∧
      outcome.2.2 = begun ++ engine.visitEffects request visits ∧
      visits.Pairwise fun earlier _ => earlier.finding.endsPass = false := by
  refine engine.look_visits_of host request begun session (.done _) fun roots session => ?_
  exact Rule.revised_visitAll host request roots engine.applicable engine.rules.rules session

/-- A pass reports what was in front and how many notifications it was for. -/
theorem report_look (engine : Engine) (host : Host) (request : PassRequest)
    (begun : List Effect) (session : Session) :
    let report := ((engine.look host request begun).answer session).2.1
    report.identity = request.identity ∧
      report.events = (request.batch.map (·.events)).getD 0 := by
  unfold look
  split
  · rw [answer_bind]
    dsimp only
    split <;> exact ⟨rfl, rfl⟩
  · exact ⟨rfl, rfl⟩

end Engine

end TreeSelector

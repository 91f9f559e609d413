import Mathlib.Data.List.Basic
import TreeSelector.Proofs.Engine.Queue

/-!
# How a pass goes through the rules

A pass comes upon the rules that apply in their order.  It tries those that are ready, until
one acts or matches a node of another application; what it reports and what it does is due
to the rules it tried, and it leaves all others as they were.
-/

namespace TreeSelector

open Reading (answer_bind answer_pure)

namespace Rule

/-- The selector of a rule matches a node when a pass looks for it. -/
def Hits (rule : Rule) (host : Host) (roots : List NodeId) (node : NodeId) : Prop :=
  ∃ session, (rule.query (host.view rule.definition.revisitsTree) roots).answer session =
    .hit node

/-- A host does not say that a node belongs to another application. -/
def IsAtHome (host : Host) (identity : Identity) (node : NodeId) : Prop :=
  ∀ appId, host.appId node = .ok (some appId) → appId = identity.appId

/-- What a pass finds when it comes upon a rule. -/
inductive Finds (host : Host) (request : PassRequest) (roots : List NodeId) (rule : Rule) :
    Rule → Finding → Prop where
  | skipped : rule.status request.now ≠ .ready → Finds host request roots rule rule .skipped
  | missed {after : Rule} :
      rule.status request.now = .ready → Finds host request roots rule after .missed
  | foreign {node : NodeId} {appId : String} :
      rule.status request.now = .ready → rule.Hits host roots node →
      host.appId node = .ok (some appId) → appId ≠ request.identity.appId →
      Finds host request roots rule rule (.foreign appId)
  | waiting {after : Rule} {due : Time} :
      rule.status request.now = .ready → Finds host request roots rule after (.waiting due)
  | acted {after : Rule} {node : NodeId} :
      rule.status request.now = .ready → rule.Hits host roots node →
      IsAtHome host request.identity node → Finds host request roots rule after (.acted node)

/-- A pass goes through some rules and visits those that apply, up to one that ends it. -/
inductive Toured (host : Host) (request : PassRequest) (roots : List NodeId) :
    List Rule → List Rule → List Visit → Prop where
  | nil : Toured host request roots [] [] []
  | other {rule : Rule} {rules afters : List Rule} {visits : List Visit} :
      rule.definition.appliesTo request.identity = false →
      Toured host request roots rules afters visits →
      Toured host request roots (rule :: rules) (rule :: afters) visits
  | goesOn {rule after : Rule} {finding : Finding} {rules afters : List Rule}
      {visits : List Visit} :
      rule.definition.appliesTo request.identity = true →
      Finds host request roots rule after finding → finding.endsPass = false →
      Toured host request roots rules afters visits →
      Toured host request roots (rule :: rules) (after :: afters) (⟨rule, finding⟩ :: visits)
  | ends {rule after : Rule} {finding : Finding} {rules : List Rule} :
      rule.definition.appliesTo request.identity = true →
      Finds host request roots rule after finding → finding.endsPass = true →
      Toured host request roots (rule :: rules) (after :: rules) [⟨rule, finding⟩]

section Visits

variable (host : Host) (request : PassRequest) (roots : List NodeId)

theorem settle_finds {rule : Rule} (ready : rule.status request.now = .ready) {node : NodeId}
    (hit : rule.Hits host roots node) :
    Finds host request roots rule
      (rule.settle request node (host.appId node).toOption.join).1
      (rule.settle request node (host.appId node).toOption.join).2 := by
  unfold settle
  split
  · rename_i appId named
    obtain ⟨owner, other⟩ := Option.filter_eq_some_iff.mp named
    refine .foreign ready hit ?_ (of_decide_eq_true other)
    cases answer : host.appId node with
    | error error =>
        rw [answer] at owner
        cases owner
    | ok found =>
        rw [answer] at owner
        exact congrArg Except.ok owner
  · rename_i same
    have home : IsAtHome host request.identity node := by
      intro appId answer
      rw [answer] at same
      simpa using Option.filter_eq_none_iff.mp same appId rfl
    split
    · exact .waiting ready
    · exact .acted ready hit home

theorem visit_finds (rule : Rule) (session : Session) :
    Finds host request roots rule ((rule.visit host request roots).answer session).1
      ((rule.visit host request roots).answer session).2 := by
  unfold visit
  split
  · rename_i ready
    rw [answer_bind]
    cases found : (rule.query (host.view rule.definition.revisitsTree) roots).answer session with
    | hit node => exact settle_finds host request roots ready ⟨session, found⟩
    | miss => exact .missed ready
    | excluded => exact .missed ready
  · exact .skipped ‹_›

theorem toured_tour (rules : List Rule) (session : Session) :
    let outcome := (tour host request roots (·.definition.appliesTo request.identity)
      rules).answer session
    Toured host request roots rules outcome.1 outcome.2 := by
  induction rules generalizing session with
  | nil => exact .nil
  | cons rule rules hypothesis =>
      rw [tour]
      split
      · rename_i applies
        rw [answer_bind]
        have found := visit_finds host request roots rule session
        generalize (rule.visit host request roots).answer session = outcome at found ⊢
        obtain ⟨after, finding⟩ := outcome
        dsimp only
        by_cases ends : finding.endsPass
        · rw [if_pos ends]
          exact .ends applies found ends
        · rw [if_neg ends]
          exact .goesOn applies found (Bool.eq_false_iff.mpr ends) (hypothesis _)
      · rename_i applies
        exact .other (Bool.eq_false_iff.mpr applies) (hypothesis session)

end Visits

/-- The rules among some visits that were ready. -/
def tried (visits : List Visit) : List Rule := (visits.filter (·.isEvaluated)).map (·.rule)

/-- Whether a pass may try a rule: it applies to what is in front and is ready. -/
def isEligible (rule : Rule) (request : PassRequest) : Bool :=
  rule.definition.appliesTo request.identity && rule.status request.now = .ready

section Tours

variable {host : Host} {request : PassRequest} {roots : List NodeId} {rules afters : List Rule}
  {visits : List Visit}

theorem Finds.isEvaluated_eq {rule after : Rule} {finding : Finding}
    (found : Finds host request roots rule after finding) :
    (Visit.mk rule finding).isEvaluated = decide (rule.status request.now = .ready) := by
  cases found with
  | skipped resting => simp [Visit.isEvaluated, resting]
  | missed ready | waiting ready => simp [Visit.isEvaluated, ready]
  | foreign ready | acted ready => simp [Visit.isEvaluated, ready]

theorem Finds.tried_cons {rule after : Rule} {finding : Finding}
    (found : Finds host request roots rule after finding) (visits : List Visit) :
    tried (⟨rule, finding⟩ :: visits) =
      if rule.status request.now = .ready then rule :: tried visits else tried visits := by
  unfold tried
  rw [List.filter_cons, found.isEvaluated_eq]
  by_cases ready : rule.status request.now = .ready <;> simp [ready]

theorem filter_isEligible_cons {rule : Rule}
    (applies : rule.definition.appliesTo request.identity = true) (rules : List Rule) :
    (rule :: rules).filter (·.isEligible request) =
      if rule.status request.now = .ready then rule :: rules.filter (·.isEligible request)
      else rules.filter (·.isEligible request) := by
  rw [List.filter_cons, isEligible, applies]
  by_cases ready : rule.status request.now = .ready <;> simp [ready]

theorem Finds.ready_of_endsPass {rule after : Rule} {finding : Finding}
    (found : Finds host request roots rule after finding) (ends : finding.endsPass = true) :
    rule.status request.now = .ready := by
  cases found with
  | skipped | missed | waiting => cases ends
  | foreign ready | acted ready => exact ready

/-- The rules that a pass tries are the first ones that it may try. -/
theorem Toured.tried_prefix (toured : Toured host request roots rules afters visits) :
    tried visits <+: rules.filter (·.isEligible request) := by
  induction toured with
  | nil => exact List.prefix_refl _
  | other elsewhere _ hypothesis =>
      rw [List.filter_cons_of_neg (by simp [isEligible, elsewhere])]
      exact hypothesis
  | goesOn applies found _ _ hypothesis =>
      rw [found.tried_cons, filter_isEligible_cons applies]
      split
      · exact (List.prefix_cons_inj _).mpr hypothesis
      · exact hypothesis
  | ends applies found ends =>
      have ready := found.ready_of_endsPass ends
      rw [found.tried_cons, filter_isEligible_cons applies, if_pos ready, if_pos ready]
      exact (List.prefix_cons_inj _).mpr List.nil_prefix

/-- Visits none of which ends a pass. -/
def GoOn (visits : List Visit) : Prop := ∀ visit ∈ visits, visit.finding.endsPass = false

theorem GoOn.nil : GoOn [] := fun _ member => absurd member List.not_mem_nil

/-- A pass that is not ended by a rule tries all that it may try. -/
theorem Toured.tried_eq (toured : Toured host request roots rules afters visits)
    (on : GoOn visits) : tried visits = rules.filter (·.isEligible request) := by
  induction toured with
  | nil => rfl
  | other elsewhere _ hypothesis =>
      rw [List.filter_cons_of_neg (by simp [isEligible, elsewhere])]
      exact hypothesis on
  | goesOn applies found _ _ hypothesis =>
      rw [found.tried_cons, filter_isEligible_cons applies,
        hypothesis (List.forall_mem_cons.mp on).2]
  | ends _ _ ends =>
      rw [on _ List.mem_cons_self] at ends
      cases ends

/-- Either no visit ends the pass or just the last one does. -/
theorem Toured.goOn_or_ends (toured : Toured host request roots rules afters visits) :
    GoOn visits ∨ ∃ earlier rule after finding, visits = earlier ++ [⟨rule, finding⟩] ∧
      GoOn earlier ∧ Finds host request roots rule after finding ∧ finding.endsPass = true := by
  induction toured with
  | nil => exact .inl .nil
  | other _ _ hypothesis => exact hypothesis
  | goesOn _ _ on _ hypothesis =>
      rcases hypothesis with quiet | ⟨earlier, rule, after, finding, rfl, quiet, found, ends⟩
      · exact .inl (List.forall_mem_cons.mpr ⟨on, quiet⟩)
      · exact .inr ⟨_ :: earlier, rule, after, finding, rfl,
          List.forall_mem_cons.mpr ⟨on, quiet⟩, found, ends⟩
  | ends _ found ends => exact .inr ⟨[], _, _, _, rfl, .nil, found, ends⟩

/-- A rule that is not tried stays as it was, in its place. -/
theorem Toured.kept (toured : Toured host request roots rules afters visits) {place : Nat}
    {rule : Rule} (placed : rules[place]? = some rule) (untried : rule ∉ tried visits) :
    afters[place]? = some rule := by
  induction toured generalizing place with
  | nil => exact placed
  | other _ _ hypothesis =>
      cases place with
      | zero => exact placed
      | succ place => exact hypothesis placed untried
  | goesOn _ found _ _ hypothesis =>
      rw [found.tried_cons] at untried
      split at untried
      · rename_i ready
        cases place with
        | zero => exact absurd (Option.some.inj placed).symm (List.ne_of_not_mem_cons untried)
        | succ place => exact hypothesis placed (List.not_mem_of_not_mem_cons untried)
      · rename_i resting
        cases place with
        | zero =>
            cases found with
            | skipped => exact placed
            | missed ready | foreign ready | waiting ready | acted ready =>
                exact absurd ready resting
        | succ place => exact hypothesis placed untried
  | ends _ found ends =>
      rw [found.tried_cons, if_pos (found.ready_of_endsPass ends)] at untried
      cases place with
      | zero => exact absurd (Option.some.inj placed).symm (List.ne_of_not_mem_cons untried)
      | succ place => exact placed

end Tours

end Rule

open Rule (GoOn)

section Reports

variable {visits earlier : List Visit}

theorem Rule.requestsAt_eq_nil (on : GoOn visits) (generation : Nat) :
    requestsAt generation visits = [] := by
  refine List.filterMap_eq_nil_iff.mpr fun visit member => ?_
  have goesOn := on visit member
  unfold request?
  split
  · rename_i acted
    rw [acted] at goesOn
    cases goesOn
  · rfl

namespace PassReport

variable (report : PassReport)

theorem evaluated_withVisits (visits : List Visit) :
    (report.withVisits visits).evaluated = (Rule.tried visits).map Rule.key := by
  unfold withVisits Rule.tried
  rw [List.map_map]
  rfl

/-- A rule that matches was tried. -/
theorem matched_sublist_evaluated (visits : List Visit) :
    (report.withVisits visits).matched.Sublist (report.withVisits visits).evaluated := by
  apply List.Sublist.map
  apply List.monotone_filter_right
  rintro ⟨rule, finding⟩ matched
  cases finding with
  | skipped => cases matched
  | missed | foreign | waiting | acted => rfl

theorem acted_eq_none (on : GoOn visits) : (report.withVisits visits).acted = none := by
  refine List.findSome?_eq_none_iff.mpr fun visit member => ?_
  have goesOn := on visit member
  split
  · rename_i acted
    rw [acted] at goesOn
    cases goesOn
  · rfl

theorem mismatch_eq_false (on : GoOn visits) : (report.withVisits visits).mismatch = false := by
  refine List.any_eq_false.mpr fun visit member => ?_
  have goesOn := on visit member
  split
  · rename_i foreign
    rw [foreign] at goesOn
    cases goesOn
  · exact Bool.false_ne_true

theorem acted_append (on : GoOn earlier) (last : Visit) :
    (report.withVisits (earlier ++ [last])).acted = (report.withVisits [last]).acted := by
  have quiet : earlier.findSome? _ = none := report.acted_eq_none on
  simp only [withVisits, List.findSome?_append]
  rw [quiet]
  rfl

theorem mismatch_append (on : GoOn earlier) (last : Visit) :
    (report.withVisits (earlier ++ [last])).mismatch = (report.withVisits [last]).mismatch := by
  have quiet : earlier.any _ = false := report.mismatch_eq_false on
  simp only [withVisits, List.any_append]
  rw [quiet]
  rfl

end PassReport

end Reports

namespace Engine

/-- The rules that a pass may try, in their order. -/
def queue (begun : Engine) (request : PassRequest) : List Rule :=
  begun.rules.rules.filter (·.isEligible request)

/-- A pass that has begun tries the first of the rules that it may try, up to one that acts or
matches a node of another application. -/
structure Disciplined (begun : Engine) (host : Host) (request : PassRequest)
    (roots : List NodeId) (after : Engine) (report : PassReport) (effects : List Effect)
    (tried : List Rule) : Prop where
  inOrder : tried <+: begun.queue request
  evaluated : report.evaluated = tried.map Rule.key
  matched : report.matched.Sublist report.evaluated
  exhaustive : begun.rules.enableMatch = true → roots ≠ [] → report.acted = none →
    report.mismatch = false → tried = begun.queue request
  acts : ∀ key, report.acted = some key → ∃ rule node, tried.getLast? = some rule ∧
    rule.key = key ∧ rule.Hits host roots node ∧ Rule.IsAtHome host request.identity node ∧
      requestsOf effects = [⟨key, node, rule.config.action, report.generation⟩]
  rests : report.acted = none → requestsOf effects = []
  mismatches : report.mismatch = true → report.acted = none ∧ ∃ rule node appId,
    tried.getLast? = some rule ∧ rule.Hits host roots node ∧
      host.appId node = .ok (some appId) ∧ appId ≠ request.identity.appId ∧
        .identityMismatch request.identity.appId appId ∈ effects
  kept : ∀ (place : Nat) (rule : Rule), begun.rules.rules[place]? = some rule → rule ∉ tried →
    after.rules.rules[place]? = some rule

section Passes

variable {begun : Engine} {host : Host} {request : PassRequest} {roots : List NodeId}
  {after : Engine} {report : PassReport} {effects : List Effect}

/-- A pass that looks at no rule is disciplined if it may try none or there is nothing to look
at. -/
theorem disciplined_of_untouched (opened : report.evaluated = [] ∧ report.matched = [] ∧
      report.acted = none ∧ report.mismatch = false) (quiet : requestsOf effects = [])
    (idle : begun.rules.enableMatch = true → roots ≠ [] → begun.queue request = []) :
    begun.Disciplined host request roots begun report effects [] where
  inOrder := List.nil_prefix
  evaluated := opened.1
  matched := by
    rw [opened.2.1]
    exact List.nil_sublist _
  exhaustive := fun matching rooted _ _ => (idle matching rooted).symm
  acts := by
    intro key acted
    rw [opened.2.2.1] at acted
    cases acted
  rests := fun _ => quiet
  mismatches := by
    intro mismatch
    rw [opened.2.2.2] at mismatch
    cases mismatch
  kept := fun _ _ placed _ => placed

theorem tried_concat {earlier : List Visit} {rule : Rule} {finding : Finding}
    (evaluated : (Visit.mk rule finding).isEvaluated = true) :
    (Rule.tried (earlier ++ [⟨rule, finding⟩])).getLast? = some rule := by
  unfold Rule.tried
  rw [List.filter_append, List.map_append, List.filter_cons_of_pos evaluated]
  simp

theorem disciplined_of_toured {visits : List Visit} {started : List Effect}
    (toured : Rule.Toured host request roots begun.rules.rules after.rules.rules visits)
    (quiet : requestsOf started = []) (opening : PassReport)
    (generation : opening.generation = begun.generation) :
    begun.Disciplined host request roots after (opening.withVisits visits)
      (started ++ begun.visitEffects request visits) (Rule.tried visits) := by
  have requests : requestsOf (started ++ begun.visitEffects request visits) =
      Rule.requestsAt begun.generation visits := by
    rw [requestsOf_append, quiet, requestsOf_visitEffects, List.nil_append]
  have inOrder := toured.tried_prefix
  have evaluated := opening.evaluated_withVisits visits
  have matched := opening.matched_sublist_evaluated visits
  rcases toured.goOn_or_ends with on | ⟨earlier, rule, _, finding, rfl, on, found, ends⟩
  · have acted := opening.acted_eq_none on
    have mismatch := opening.mismatch_eq_false on
    refine ⟨inOrder, evaluated, matched, fun _ _ _ _ => toured.tried_eq on, ?_, ?_, ?_,
      fun _ _ => toured.kept⟩
    · intro key found
      rw [acted] at found
      cases found
    · intro _
      rw [requests, Rule.requestsAt_eq_nil on]
    · intro found
      rw [mismatch] at found
      cases found
  · have acted := opening.acted_append on ⟨rule, finding⟩
    have mismatch := opening.mismatch_append on ⟨rule, finding⟩
    rw [Rule.requestsAt, List.filterMap_append, ← Rule.requestsAt,
      Rule.requestsAt_eq_nil on, List.nil_append] at requests
    cases found with
    | skipped | missed | waiting => cases ends
    | foreign ready hit owner other =>
        refine ⟨inOrder, evaluated, matched, ?_, ?_, fun _ => requests, ?_,
          fun _ _ => toured.kept⟩
        · intro _ _ _ none
          cases mismatch.symm.trans none
        · intro key found
          cases acted.symm.trans found
        · intro _
          refine ⟨acted, rule, _, _, tried_concat rfl, hit, owner, other, ?_⟩
          refine List.mem_append_right _ (List.mem_append_left _ ?_)
          exact List.mem_filterMap.mpr ⟨_, List.mem_append_right _ List.mem_cons_self, rfl⟩
    | acted ready hit home =>
        refine ⟨inOrder, evaluated, matched, ?_, ?_, ?_, ?_, fun _ _ => toured.kept⟩
        · intro _ _ none
          cases acted.symm.trans none
        · intro key found
          obtain rfl : rule.key = key := Option.some.inj (acted.symm.trans found)
          refine ⟨rule, _, tried_concat rfl, rfl, hit, home, ?_⟩
          rw [requests, PassReport.withVisits, generation]
          rfl
        · intro none
          cases acted.symm.trans none
        · intro found
          cases mismatch.symm.trans found

end Passes

theorem IsFresh.look_disciplined {begun : Engine} (fresh : begun.IsFresh) (host : Host)
    {request : PassRequest} (here : begun.identity = some request.identity)
    {started : List Effect} (quiet : requestsOf started = []) (session : Session) :
    let outcome := (begun.look host request started).answer session
    ∃ tried, begun.Disciplined host request ((roots host request.batch).answer session).1
      outcome.1 outcome.2.1 outcome.2.2 tried := by
  have applies : begun.applies = (·.definition.appliesTo request.identity) := by
    funext rule
    rw [Engine.applies, here]
    rfl
  unfold look
  split
  · rw [answer_bind]
    generalize (roots host request.batch).answer session = found
    obtain ⟨below, fromRoot⟩ := found
    dsimp only
    by_cases nowhere : below.isEmpty
    · rw [if_pos nowhere]
      refine ⟨[], disciplined_of_untouched ⟨rfl, rfl, rfl, rfl⟩ quiet ?_⟩
      exact fun _ rooted => absurd (List.isEmpty_iff.mp nowhere) rooted
    · rw [if_neg nowhere, answer_bind, fresh.visitAll_eq_tour, applies]
      have toured := Rule.toured_tour host request below begun.rules.rules
        ((roots host request.batch).after session)
      exact ⟨_, disciplined_of_toured toured quiet _ rfl⟩
  · rename_i unwatched
    refine ⟨[], disciplined_of_untouched ⟨rfl, rfl, rfl, rfl⟩ quiet fun matching _ => ?_⟩
    have nowhere : begun.rules.rules.findIdxs begun.applies = [] := by
      rw [← isFresh_iff.mp fresh]
      simpa [isWatching, matching] using unwatched
    refine List.filter_eq_nil_iff.mpr fun rule member eligible => ?_
    rw [applies] at nowhere
    have elsewhere : rule.definition.appliesTo request.identity = false :=
      List.findIdxs_eq_nil_iff.mp nowhere rule member
    rw [Rule.isEligible, elsewhere] at eligible
    cases eligible

/-- Pass by pass: an engine has the rules of the configuration in force, by order and
position, and keeps the places of those that apply, once a change of what is in front is
dealt with as before it; a pass tries the first of those that apply and are ready, and all of
them if it matches at all, has a place to look and no rule acts or matches a node of another
application; the rule that does so is the last one it tries.  It emits at most one request,
just if a rule acts, for that rule and for a node that is not known to belong to another
application; and it leaves the rules as they were that it does not try. -/
theorem passes_are_disciplined (config : EngineConfig) (timing : Timing) (began : Time)
    (events : List Event) (host : Host) (request : PassRequest) (session : Session) :
    let engine := (start config timing began).run events
    let begun := (engine.enter request).1
    let outcome := engine.passed host request session
    engine.IsFresh ∧ begun.IsFresh ∧ begun.Serves (config.after events) ∧
      ∃ tried, begun.Disciplined host request ((roots host request.batch).answer session).1
        outcome.1 outcome.2.1 outcome.2.2 tried := by
  intro engine begun outcome
  have fresh : engine.IsFresh := (start_isFresh config timing began).run events
  have serves : engine.Serves (config.after events) :=
    (start_serves config timing began).run events
  refine ⟨fresh, fresh.enter request, serves.of_advances (engine.enter_advances request)
    (engine.enableMatch_enter request), ?_⟩
  exact (fresh.enter request).look_disciplined host (engine.identity_enter request)
    (engine.requestsOf_enter request) session

end Engine

end TreeSelector

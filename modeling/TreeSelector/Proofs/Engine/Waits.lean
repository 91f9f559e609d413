import Mathlib.Data.List.Induction
import TreeSelector.Proofs.Engine.Applicability
import TreeSelector.Proofs.Tree.Served

/-!
# Waiting for an action

A rule whose action is delayed waits from the pass that matched it on, and as long as it
waits nothing about it changes.  It acts only after such a wait, which may outlast changes
of what is in front: those that leave the application the same and come once the delay is
over do not start the rule anew.
-/

namespace TreeSelector

namespace Rule

variable {rule : Rule} {now : Time}

/-- A waiting rule that is not pending, and is ready at that time or later, has waited long
enough. -/
theorem actionDueFrom_le_of_not_isPending (ready : rule.status now = .ready) {since time : Time}
    (waiting : rule.progress.delayStarted = some since) (settled : rule.isPending time = false)
    (before : time ≤ now) : rule.actionDueFrom since ≤ time := by
  -- whatever else could have been its status would have lasted, so only the wait is left
  refine Nat.not_lt.mp fun undue => ?_
  have waits : rule.isWaiting time = true := by
    unfold isWaiting actionDeadline
    rw [waiting]
    simpa using undue
  have pending : rule.isPending time = true := by
    have isReady := status_eq_ready_iff.mp ready
    rw [isPending, (isReady.of_le before).status_eq, isReady.idle, waits]
    split <;> rfl
  rw [pending] at settled
  cases settled

theorem of_restartsOn_eq_false {appChanged : Bool}
    (spared : rule.restartsOn appChanged now = false) :
    appChanged = false ∧ rule.isPending now = false ∧ rule.config.resetMatch ≠ .activity := by
  unfold restartsOn at spared
  obtain ⟨first, lasting⟩ := Bool.or_eq_false_iff.mp spared
  obtain ⟨sameApp, settled⟩ := Bool.or_eq_false_iff.mp first
  exact ⟨sameApp, settled, of_decide_eq_false lasting⟩

/-- A rule still waiting after a change of what is in front was not started anew. -/
theorem eq_of_waiting_identityChanged {appChanged : Bool}
    (waiting : (rule.identityChanged appChanged now).progress.delayStarted ≠ none) :
    rule.identityChanged appChanged now = rule ∧ rule.restartsOn appChanged now = false := by
  unfold identityChanged at waiting ⊢
  split_ifs with restarts
  · rw [if_pos restarts] at waiting
    exact absurd rfl waiting
  · exact ⟨rfl, Bool.eq_false_iff.mpr restarts⟩

theorem actionFinished_of_idle (idle : rule.progress.acting = none) (succeeded : Bool) :
    (rule.actionFinished succeeded).2 = rule := by
  unfold actionFinished
  rw [idle]

theorem delayStarted_actionFinished (rule : Rule) (succeeded : Bool) :
    (rule.actionFinished succeeded).2.progress.delayStarted = rule.progress.delayStarted := by
  unfold actionFinished
  split
  · rfl
  · split <;> rfl

/-- A rule whose action is delayed and that need not wait has waited. -/
theorem waiting_of_needsActionDelay_eq_false (waited : rule.needsActionDelay = false)
    {delay : UInt64} (delayed : rule.config.actionDelay = some delay) (positive : 0 < delay) :
    ∃ since, rule.progress.delayStarted = some since := by
  unfold needsActionDelay at waited
  rw [delayed] at waited
  have started : rule.progress.delayStarted ≠ none := by
    intro none
    rw [none] at waited
    simp [positive] at waited
  exact Option.ne_none_iff_exists'.mp started

end Rule

namespace Engine

/-- A pass matches a rule and arms the delay of its action, for which the rule waits from
then on. -/
structure Arms (engine : Engine) (host : Host) (request : PassRequest) (session : Session)
    (rule : Rule) : Prop where
  matched : rule.key ∈ (engine.passed host request session).2.1.matched
  armed : .armActionDelay rule.key (rule.actionDueFrom request.now) rule.token ∈
    (engine.passed host request session).2.2
  waiting : rule.progress.delayStarted = some request.now
  idle : rule.progress.acting = none

/-- Neither does an event end the wait of a rule nor does it start the rule anew. -/
structure Spares (engine : Engine) (event : Event) (rule : Rule) : Prop where
  present : rule ∈ (engine.react event).rules.rules
  survives : ∀ change ∈ engine.change? event,
    rule.restartsOn change.appChanged change.time = false

section Steps

variable {engine : Engine} {rule : Rule}

theorem mem_of_mem_enter {request : PassRequest}
    (member : rule ∈ (engine.enter request).1.rules.rules)
    (waiting : rule.progress.delayStarted ≠ none) :
    rule ∈ engine.rules.rules ∧ ∀ change ∈ engine.changeBy? request,
      rule.restartsOn change.appChanged change.time = false := by
  unfold enter at member
  unfold changeBy?
  dsimp only at member
  split at member
  · rename_i same
    rw [if_pos same]
    exact ⟨member, nofun⟩
  · rename_i other
    rw [if_neg other]
    obtain ⟨before, old, rfl⟩ := List.mem_map.mp member
    obtain ⟨same, survived⟩ := Rule.eq_of_waiting_identityChanged waiting
    rw [same]
    refine ⟨old, ?_⟩
    rintro _ ⟨⟩
    exact survived

/-- A rule that waits after a pass has begun to do so in it or was spared. -/
theorem arms_or_mem_of_mem_passed (fresh : engine.IsFresh) {host : Host} {request : PassRequest}
    {session : Session} (member : rule ∈ (engine.passed host request session).1.rules.rules)
    (waiting : rule.progress.delayStarted ≠ none) :
    engine.Arms host request session rule ∨ rule ∈ (engine.enter request).1.rules.rules := by
  obtain ⟨visits, visited, matched, effects⟩ := fresh.passed_visits host request session
  obtain ⟨before, old, rfl | ⟨finding, made, settled⟩⟩ := visited.of_mem member
  · exact .inr old
  · cases settled with
    | same _ => exact .inr old
    | abandons _ => exact absurd rfl waiting
    | dispatched _ _ _ => exact absurd rfl waiting
    | begins ready _ =>
        have listed : before.key ∈ (visits.filter (·.finding.isMatch)).map (·.rule.key) :=
          List.mem_map.mpr ⟨_, List.mem_filter.mpr ⟨made, rfl⟩, rfl⟩
        have effect : .armActionDelay before.key (before.actionDueFrom request.now)
            before.token ∈ (engine.enter request).1.visitEffects request visits :=
          List.mem_append_left _ (List.mem_filterMap.mpr ⟨_, made, rfl⟩)
        have idle : before.progress.acting = none := Rule.acting_eq_none_of_ready ready
        refine .inl ⟨?_, ?_, rfl, idle⟩
        · rw [matched]
          exact listed
        · rw [effects]
          exact List.mem_append_right _ effect

/-- A rule that waits after an event waited before it and was spared, unless the event is
the pass that armed its delay. -/
theorem spares_of_waiting (fresh : engine.IsFresh) (idle : ∀ rule ∈ engine.rules.rules,
      rule.progress.delayStarted ≠ none → rule.progress.acting = none) {event : Event}
    (member : rule ∈ (engine.react event).rules.rules)
    (waiting : rule.progress.delayStarted ≠ none) :
    (rule ∈ engine.rules.rules ∧ engine.Spares event rule) ∨
      ∃ host request session, event = .pass host request session ∧
        engine.Arms host request session rule := by
  cases event with
  | pass host request session =>
      rcases arms_or_mem_of_mem_passed fresh member waiting with arms | begun
      · exact .inr ⟨host, request, session, rfl, arms⟩
      · obtain ⟨old, survives⟩ := mem_of_mem_enter begun waiting
        exact .inl ⟨old, member, survives⟩
  | report key generation succeeded =>
      refine .inl ⟨?_, member, nofun⟩
      change rule ∈ (engine.actionFinished key generation succeeded).rules.rules at member
      unfold actionFinished at member
      split at member
      · rcases RuleSet.of_mem_modifyFirst member with old | ⟨before, old, rfl⟩
        · exact old
        -- a report concerns a rule that acts, and none that waits does
        · rw [Rule.delayStarted_actionFinished] at waiting
          rw [Rule.actionFinished_of_idle (idle before old waiting)]
          exact old
      · exact member
  | reset key now =>
      refine .inl ⟨?_, member, nofun⟩
      rcases RuleSet.of_mem_modifyFirst member with old | ⟨before, old, rfl⟩
      · exact old
      · exact absurd rfl waiting
  | configure config now =>
      obtain ⟨definition, token, rfl⟩ := RuleSet.exists_start_of_mem_compile member
      exact absurd rfl waiting

end Steps

/-- In a run from an engine, a pass arms the delay of a rule, which then waits undisturbed:
until the end of the run it is neither given up nor started anew. -/
structure Awaits (engine : Engine) (host : Host) (request : PassRequest) (session : Session)
    (later : List Event) (rule : Rule) : Prop where
  arms : engine.Arms host request session rule
  undisturbed : ∀ middle, middle <+: later →
    rule ∈ (engine.run (.pass host request session :: middle)).rules.rules
  survived : ∀ change ∈ (engine.passed host request session).1.changes later,
    rule.restartsOn change.appChanged change.time = false

theorem Awaits.extend {engine : Engine} {host : Host} {request : PassRequest}
    {session : Session} {later : List Event} {rule : Rule} {event : Event}
    (awaits : engine.Awaits host request session later rule)
    (spares : (engine.run (.pass host request session :: later)).Spares event rule) :
    engine.Awaits host request session (later ++ [event]) rule where
  arms := awaits.arms
  undisturbed := by
    intro middle early
    rcases List.prefix_concat_iff.mp early with rfl | earlier
    · rw [← List.cons_append, run_append]
      exact spares.present
    · exact awaits.undisturbed middle earlier
  survived := by
    intro change member
    rw [changes_append, changes_singleton] at member
    rcases List.mem_append.mp member with earlier | last
    · exact awaits.survived change earlier
    · exact spares.survives change (Option.mem_toList.mp last)

/-- In a run from an engine none of whose rules waits, every rule that waits was armed by a
pass and has been waiting since. -/
theorem exists_awaits_of_waiting {origin : Engine} (fresh : origin.IsFresh)
    (idle : ∀ rule ∈ origin.rules.rules, rule.progress.delayStarted = none)
    (events : List Event) :
    ∀ rule ∈ (origin.run events).rules.rules, rule.progress.delayStarted ≠ none →
      ∃ earlier host request session later,
        events = earlier ++ .pass host request session :: later ∧
          (origin.run earlier).Awaits host request session later rule := by
  -- from the last event back: a rule that waits now was armed by it or spared by it
  induction events using List.reverseRecOn with
  | nil => exact fun rule member waiting => absurd (idle rule member) waiting
  | append_singleton events event hypothesis =>
      intro rule member waiting
      have waiters : ∀ rule ∈ (origin.run events).rules.rules,
          rule.progress.delayStarted ≠ none → rule.progress.acting = none := by
        intro rule member waiting
        obtain ⟨_, _, _, _, _, _, awaits⟩ := hypothesis rule member waiting
        exact awaits.arms.idle
      rw [run_append] at member
      rcases spares_of_waiting (fresh.run events) waiters member waiting with ⟨old, spares⟩ | arming
      · obtain ⟨earlier, host, request, session, later, rfl, awaits⟩ :=
          hypothesis rule old waiting
        refine ⟨earlier, host, request, session, later ++ [event], by simp, ?_⟩
        rw [run_append] at spares
        exact awaits.extend spares
      · obtain ⟨host, request, session, rfl, arms⟩ := arming
        refine ⟨events, host, request, session, [], rfl, arms, ?_, nofun⟩
        intro middle early
        rw [List.prefix_nil.mp early]
        exact member

/-- A rule acts if a pass finds it ready and in no need to wait. -/
theorem exists_ready_of_act {engine : Engine} (fresh : engine.IsFresh) {host : Host}
    {request : PassRequest} {session : Session} {emitted : ActionRequest}
    (acts : .act emitted ∈ (engine.passed host request session).2.2) :
    ∃ rule ∈ (engine.enter request).1.rules.rules, rule.key = emitted.rule ∧
      rule.config.action = emitted.action ∧ rule.status request.now = .ready ∧
        rule.needsActionDelay = false ∧
          emitted.generation = engine.generation + (engine.changeBy? request).toList.length := by
  obtain ⟨visits, visited, _, effects⟩ := fresh.passed_visits host request session
  have requested : emitted ∈ requestsOf (engine.passed host request session).2.2 :=
    List.mem_filterMap.mpr ⟨_, acts, rfl⟩
  rw [effects, requestsOf_append, requestsOf_enter, List.nil_append,
    mem_requestsOf_visitEffects] at requested
  obtain ⟨rule, node, made, rfl⟩ := requested
  obtain ⟨member, ready, waited⟩ := visited.ready_of_acted made
  exact ⟨rule, member, rfl, rfl, ready, waited, engine.generation_enter request⟩

theorem start_idle (config : EngineConfig) (timing : Timing) (now : Time) :
    ∀ rule ∈ (start config timing now).rules.rules, rule.progress.delayStarted = none := by
  intro rule member
  obtain ⟨definition, token, rfl⟩ := RuleSet.exists_start_of_mem_compile member
  rfl

/-- A rule whose action is delayed acts only after an earlier pass matched it and armed its
delay, which then ran out undisturbed.  The action may belong to a later generation, but
only if the rule is not configured to start anew with every activity, the application
stayed the same and the delay was over at each change of what was in front. -/
theorem acts_after_wait (config : EngineConfig) (timing : Timing) (began : Time)
    (events : List Event) (host : Host) (request : PassRequest) (session : Session)
    (emitted : ActionRequest)
    (acts : .act emitted ∈
      (((start config timing began).run events).passed host request session).2.2) :
    ∃ rule ∈ (((start config timing began).run events).enter request).1.rules.rules,
      rule.key = emitted.rule ∧ rule.config.action = emitted.action ∧
      ∀ delay, rule.config.actionDelay = some delay → 0 < delay →
        ∃ earlier host' armed session' later,
          events = earlier ++ .pass host' armed session' :: later ∧
          let begun := (start config timing began).run earlier
          let arming := begun.passed host' armed session'
          let changes := arming.1.changes (later ++ [.pass host request session])
          begun.Awaits host' armed session' later rule ∧
            armed.now + delay.toNat ≤ request.now ∧
            emitted.generation = arming.2.1.generation + changes.length ∧
            ∀ change ∈ changes, change.appChanged = false ∧
              rule.config.resetMatch ≠ .activity ∧
              (change.time ≤ request.now → armed.now + delay.toNat ≤ change.time) := by
  have fresh := start_isFresh config timing began
  obtain ⟨rule, member, named, action, ready, waited, generation⟩ :=
    exists_ready_of_act (fresh.run events) acts
  refine ⟨rule, member, named, action, fun delay delayed positive => ?_⟩
  obtain ⟨since, waiting⟩ :=
    Rule.waiting_of_needsActionDelay_eq_false waited delayed positive
  have started : rule.progress.delayStarted ≠ none := Option.ne_none_iff_exists'.mpr ⟨_, waiting⟩
  obtain ⟨old, survives⟩ := mem_of_mem_enter member started
  obtain ⟨earlier, host', armed, session', later, rfl, awaits⟩ :=
    exists_awaits_of_waiting fresh (start_idle config timing began) events rule old started
  obtain rfl : armed.now = since := Option.some.inj (awaits.arms.waiting.symm.trans waiting)
  have due : rule.actionDueFrom armed.now = armed.now + delay.toNat := by
    rw [Rule.actionDueFrom, delayed]
    rfl
  refine ⟨earlier, host', armed, session', later, rfl, awaits, ?_, ?_, ?_⟩
  · rw [← due]
    exact (Rule.status_eq_ready_iff.mp ready).actionDueFrom_le waiting
  · obtain ⟨_, _, reported, _⟩ :=
      ((start config timing began).run earlier).passed_revises host' armed session'
    rw [generation, run_append, reported, ← generation_passed, changes_append, changes_singleton,
      List.length_append, ← Nat.add_assoc, ← generation_run]
    rfl
  · intro change among
    rw [changes_append, changes_singleton] at among
    have spared : rule.restartsOn change.appChanged change.time = false := by
      rcases List.mem_append.mp among with before | last
      · exact awaits.survived change before
      · rw [run_append] at survives
        exact survives change (Option.mem_toList.mp last)
    obtain ⟨sameApp, settled, lasting⟩ := Rule.of_restartsOn_eq_false spared
    refine ⟨sameApp, lasting, fun before => ?_⟩
    rw [← due]
    exact Rule.actionDueFrom_le_of_not_isPending ready waiting settled before

section Delayed

/-- One rule for a button, whose action waits half a second. -/
def patientConfig : EngineConfig :=
  { rules := [{ key := "k", selector := "[text=\"Skip\"]", actionDelay := some 500 }] }

/-- A tree with such a button. -/
def buttonHost : Host :=
  .serving (.node { appId := some "a" } [.node { text := some "Skip" } []]) [] true

/-- A look at something of the application. -/
def lookAt (activity : String) (now : Time) : PassRequest :=
  ⟨none, ⟨"a", activity, 0⟩, .notification, now⟩

/-- The button is found in one activity. -/
def found : List Event := [.pass buttonHost (lookAt "a.A" 0) (.fresh 0)]

/-- Where nothing else comes to the front, the rule acts in the generation of its match. -/
theorem acts_after_half_second :
    .act ⟨"k", 1, .click, 1⟩ ∈ (((start patientConfig {} 0).run found).passed buttonHost
        (lookAt "a.A" 600) (.fresh 0)).2.2 ∧
      ∃ rule : Rule, rule.key = "k" ∧ rule.config.actionDelay = some 500 ∧
        ∃ earlier host armed session later, found = earlier ++ .pass host armed session :: later ∧
          ((start patientConfig {} 0).run earlier).Awaits host armed session later rule ∧
          armed.now + 500 ≤ 600 := by
  have acts : .act ⟨"k", 1, .click, 1⟩ ∈ (((start patientConfig {} 0).run found).passed buttonHost
      (lookAt "a.A" 600) (.fresh 0)).2.2 := by decide +kernel
  have delayed : ∀ rule ∈ (((start patientConfig {} 0).run found).enter
      (lookAt "a.A" 600)).1.rules.rules, rule.config.actionDelay = some 500 := by decide +kernel
  obtain ⟨rule, member, named, _, waits⟩ := acts_after_wait patientConfig {} 0 found buttonHost
    (lookAt "a.A" 600) (.fresh 0) ⟨"k", 1, .click, 1⟩ acts
  have delay := delayed rule member
  obtain ⟨earlier, host, armed, session, later, same, awaits, due, _⟩ :=
    waits 500 delay (by decide)
  exact ⟨acts, rule, named, delay, earlier, host, armed, session, later, same, awaits, due⟩

/-- A wait can outlast a change of what is in front: the button is found in one activity,
and once the wait is over the rule acts in another one, though no pass of that generation
armed its delay. -/
theorem wait_outlasts_activity :
    ¬ ∀ (config : EngineConfig) (timing : Timing) (began : Time) (events : List Event)
      (host : Host) (request : PassRequest) (session : Session) (emitted : ActionRequest)
      (delay : UInt64),
      .act emitted ∈
        (((start config timing began).run events).passed host request session).2.2 →
      (∃ rule ∈ (((start config timing began).run events).enter request).1.rules.rules,
        rule.key = emitted.rule ∧ rule.config.actionDelay = some delay) → 0 < delay →
      ∃ earlier host' armed session' later,
        events = earlier ++ .pass host' armed session' :: later ∧
        let arming := ((start config timing began).run earlier).passed host' armed session'
        arming.2.1.generation = emitted.generation ∧
          armed.now + delay.toNat ≤ request.now ∧ emitted.rule ∈ arming.2.1.matched ∧
          ∃ due token, .armActionDelay emitted.rule due token ∈ arming.2.2 := by
  intro always
  have acts : .act ⟨"k", 1, .click, 2⟩ ∈ (((start patientConfig {} 0).run found).passed buttonHost
      (lookAt "a.B" 600) (.fresh 0)).2.2 := by decide +kernel
  have delayed : ∃ rule ∈ (((start patientConfig {} 0).run found).enter
      (lookAt "a.B" 600)).1.rules.rules, rule.key = "k" ∧
        rule.config.actionDelay = some 500 := by decide +kernel
  have first : (((start patientConfig {} 0).run []).passed buttonHost (lookAt "a.A" 0)
      (.fresh 0)).2.1.generation = 1 := by decide +kernel
  obtain ⟨earlier, host, armed, session, later, same, generation, _⟩ :=
    always patientConfig {} 0 found buttonHost (lookAt "a.B" 600) (.fresh 0)
      ⟨"k", 1, .click, 2⟩ 500 acts delayed (by decide)
  cases earlier with
  | nil =>
      obtain ⟨here, _⟩ := List.cons.inj same
      obtain ⟨rfl, rfl, rfl⟩ := Event.pass.inj here
      have same : 1 = 2 := first.symm.trans generation
      cases same
  | cons event earlier =>
      obtain ⟨_, rest⟩ := List.cons.inj same
      exact absurd rest (by simp)

end Delayed

end Engine

end TreeSelector

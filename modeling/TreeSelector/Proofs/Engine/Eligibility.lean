import TreeSelector.Proofs.Engine.Discipline

/-!
# Match delays over a run

The windows of a rule began when it was started anew last: by a configuration, by a reset of
the rule, or by something else that came to the front.  A pass tries no rule whose match
delay has not passed since then.
-/

namespace TreeSelector

namespace Engine

/-- Whether something else in front starts a rule anew: another application always does,
another activity of the same one if the rule is configured so or if it is pending. -/
def restartsFor (engine : Engine) (request : PassRequest) (rule : Rule) : Bool :=
  match engine.identity with
  | none => true
  | some before =>
      before ≠ request.identity &&
        (before.appId ≠ request.identity.appId || rule.config.resetMatch = .activity ||
          rule.status request.now = .pendingMatchDelay ||
          rule.status request.now = .pendingActionDelay)

/-- When an event starts the rule at a place anew, if it does.  A pass does so when it
begins. -/
def restart? (engine : Engine) (place : Nat) : Event → Option Time
  | .configure _ now => some now
  | .reset key now =>
      if engine.rules.rules.findIdx? (·.key = key) = some place then some now else none
  | .report _ _ _ => none
  | .pass _ request _ =>
      if engine.rules.rules[place]?.any (engine.restartsFor request) then some request.now
      else none

/-- When the rule at a place was started anew last in the course of some events, if it was
so at a given time before them. -/
def lastRestart (engine : Engine) (place : Nat) (time : Time) : List Event → Time
  | [] => time
  | event :: events =>
      (engine.react event).lastRestart place ((engine.restart? place event).getD time) events

theorem lastRestart_append (engine : Engine) (place : Nat) (time : Time)
    (events events' : List Event) :
    engine.lastRestart place time (events ++ events') =
      (engine.run events).lastRestart place (engine.lastRestart place time events) events' := by
  induction events generalizing engine time with
  | nil => rfl
  | cons event events hypothesis => exact hypothesis (engine.react event) _

section Steps

variable {engine : Engine} {place : Nat} {after : Rule}

theorem restartsFor_eq (other : engine.identity ≠ some request.identity) (rule : Rule) :
    engine.restartsFor request rule =
      rule.restartsOn (engine.identity.all (·.appId ≠ request.identity.appId)) request.now := by
  unfold restartsFor Rule.restartsOn Rule.isPending
  cases front : engine.identity with
  | none => rfl
  | some before =>
      have different : before ≠ request.identity := fun same => other (by rw [front, same])
      simp [different, Bool.or_assoc, Bool.or_comm, Bool.or_left_comm]

/-- When a pass has begun, the windows of a rule began with the pass or when they did. -/
theorem changedAt_enter {request : PassRequest}
    (placed : (engine.enter request).1.rules.rules[place]? = some after) (host : Host)
    (session : Session) :
    ∃ rule, engine.rules.rules[place]? = some rule ∧ after.progress.changedAt =
      (engine.restart? place (.pass host request session)).getD rule.progress.changedAt := by
  unfold enter at placed
  dsimp only at placed
  split at placed
  · rename_i same
    refine ⟨after, placed, ?_⟩
    have spared : engine.restartsFor request after = false := by
      rw [restartsFor, same]
      simp
    rw [restart?, placed, Option.any_some, spared]
    rfl
  · rename_i other
    rw [rules_changeIdentity, List.getElem?_map, Option.map_eq_some_iff] at placed
    obtain ⟨rule, found, rfl⟩ := placed
    refine ⟨rule, found, ?_⟩
    rw [restart?, found, Option.any_some, restartsFor_eq other, Rule.identityChanged]
    split <;> rfl

/-- What an event leaves at a place has its windows from the event or from before it. -/
theorem changedAt_react {event : Event}
    (placed : (engine.react event).rules.rules[place]? = some after)
    {time : Time}
    (since : ∀ rule, engine.rules.rules[place]? = some rule → rule.progress.changedAt = time) :
    after.progress.changedAt = (engine.restart? place event).getD time := by
  cases event with
  | pass host request session =>
      obtain ⟨begun, there, continues⟩ :=
        Rule.exists_at (engine.passed_continues host request session) placed
      obtain ⟨rule, found, windows⟩ := changedAt_enter there host session
      rw [continues.changedAt, windows, since rule found]
  | report key generation succeeded =>
      change (engine.actionFinished key generation succeeded).rules.rules[place]? = _ at placed
      unfold actionFinished at placed
      split at placed
      · obtain ⟨rule, found, rfl⟩ := RuleSet.getElem?_modifyFirst placed
        rw [← since rule found]
        split
        · exact (rule.actionFinished_continues succeeded).changedAt
        · rfl
      · exact since after placed
  | reset key now =>
      obtain ⟨rule, found, rfl⟩ := RuleSet.getElem?_modifyFirst placed
      rw [restart?, ← since rule found]
      split <;> rfl
  | configure config now =>
      obtain ⟨definition, token, rfl⟩ :=
        RuleSet.exists_start_of_mem_compile (List.mem_of_getElem? placed)
      rfl

end Steps

/-- The windows of a rule began when it was started anew last. -/
theorem changedAt_run {engine : Engine} {place : Nat} {time : Time}
    (since : ∀ rule, engine.rules.rules[place]? = some rule → rule.progress.changedAt = time)
    (events : List Event) {after : Rule}
    (placed : (engine.run events).rules.rules[place]? = some after) :
    after.progress.changedAt = engine.lastRestart place time events := by
  induction events generalizing engine time with
  | nil => exact since after placed
  | cons event events hypothesis =>
      exact hypothesis (fun rule here => changedAt_react here since) placed

/-- A pass tries a rule no sooner than its match delay has passed since the rule was started
anew last, by the beginning of the pass at the latest. -/
theorem tried_after_match_delay (config : EngineConfig) (timing : Timing) (began : Time)
    (events : List Event) (host : Host) (request : PassRequest) (session : Session) :
    let origin := start config timing began
    let engine := origin.run events
    let begun := (engine.enter request).1
    let evaluated := (engine.passed host request session).2.1.evaluated
    let tried := (begun.queue request).take evaluated.length
    evaluated = tried.map Rule.key ∧
      ∀ (place : Nat) (rule : Rule), begun.rules.rules[place]? = some rule → rule ∈ tried →
        origin.lastRestart place began (events ++ [.pass host request session]) +
          (rule.config.matchDelay.getD 0).toNat ≤ request.now := by
  intro origin engine begun evaluated tried
  have fresh : engine.IsFresh := (start_isFresh config timing began).run events
  obtain ⟨sequence, disciplined⟩ := (fresh.enter request).look_disciplined host
    (engine.identity_enter request) (engine.requestsOf_enter request) session
  have reported : evaluated = sequence.map Rule.key := disciplined.evaluated
  have same : sequence = tried := by
    have front := List.prefix_iff_eq_take.mp disciplined.inOrder
    rwa [← List.length_map (f := Rule.key), ← reported] at front
  refine ⟨by rw [← same, reported], fun place rule placed member => ?_⟩
  have ready : rule.status request.now = .ready := by
    have eligible := (List.mem_filter.mp (List.mem_of_mem_take member)).2
    exact of_decide_eq_true (Bool.and_eq_true_iff.mp eligible).2
  obtain ⟨before, there, windows⟩ := changedAt_enter placed host session
  have since : before.progress.changedAt = origin.lastRestart place began events := by
    refine changedAt_run (fun rule here => ?_) events there
    obtain ⟨definition, token, rfl⟩ :=
      RuleSet.exists_start_of_mem_compile (List.mem_of_getElem? here)
    rfl
  have last : origin.lastRestart place began (events ++ [.pass host request session]) =
      rule.progress.changedAt := by
    rw [lastRestart_append, windows, since]
    rfl
  rw [last]
  exact Nat.not_lt.mp (Rule.status_eq_ready_iff.mp ready).eligible

end Engine

end TreeSelector

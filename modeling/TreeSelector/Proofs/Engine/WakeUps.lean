import TreeSelector.Proofs.Engine.Tokens
import TreeSelector.Proofs.Engine.Waits

/-!
# Pending rules and their wake-ups

A rule whose action waits always has its delay armed.  A rule that is not eligible yet
has its delay armed by the last change of what is in front, provided that it has not been
started anew since: a command that does so arms nothing, and no later pass makes up for
it until something else comes to the front.
-/

namespace TreeSelector

namespace Rule

theorem Continues.isCapReached {before after : Rule} (continues : before.Continues after)
    (capped : before.isCapReached = true) : after.isCapReached = true := by
  simp only [Rule.isCapReached, Rule.config, continues.definition] at capped ⊢
  cases limit : before.definition.config.actionMaximum with
  | none => simp [limit] at capped
  | some maximum =>
      have reached : maximum.toNat ≤ before.progress.actionCount := by
        simpa [limit] using capped
      simpa using Nat.le_trans reached continues.count

theorem Continues.readyAt {before after : Rule} (continues : before.Continues after) :
    after.readyAt = before.readyAt := by
  simp [Rule.readyAt, Rule.config, continues.definition, continues.changedAt]

theorem Continues.isExpired {before after : Rule} (continues : before.Continues after)
    (now : Time) : after.isExpired now = before.isExpired now := by
  simp [Rule.isExpired, Rule.config, continues.definition, continues.changedAt]

/-- A rule that goes on is in force no longer than it was. -/
theorem Continues.isInForce {before after : Rule} (continues : before.Continues after)
    {now : Time} (inForce : after.IsInForce now) : before.IsInForce now where
  included := continues.definition ▸ inForce.included
  sound := continues.definition ▸ inForce.sound
  unused := fun capped => inForce.unused (continues.isCapReached capped)
  lasting := continues.isExpired now ▸ inForce.lasting

/-- As long as a rule is not started anew, one that is not eligible yet never was. -/
theorem Continues.pendingMatchDelay {before after : Rule} (continues : before.Continues after)
    {early late : Time} (ordered : early ≤ late)
    (pending : after.status late = .pendingMatchDelay) :
    before.status early = .pendingMatchDelay := by
  obtain ⟨inForce, soon⟩ := status_eq_pendingMatchDelay_iff.mp pending
  rw [continues.readyAt] at soon
  exact status_eq_pendingMatchDelay_iff.mpr
    ⟨continues.isInForce (inForce.of_le ordered), Nat.lt_of_le_of_lt ordered soon⟩

/-- A rule that has gone on since and is not used up was not eligible at any time at which it
was not eligible before. -/
theorem Continues.pendingMatchDelay_after {before after : Rule}
    (continues : before.Continues after) {time now : Time}
    (pending : before.status time = .pendingMatchDelay)
    (unused : after.status now = .pendingMatchDelay) :
    after.status time = .pendingMatchDelay := by
  obtain ⟨former, soon⟩ := status_eq_pendingMatchDelay_iff.mp pending
  obtain ⟨latter, _⟩ := status_eq_pendingMatchDelay_iff.mp unused
  have lasting : ¬ after.isExpired time = true := continues.isExpired time ▸ former.lasting
  exact status_eq_pendingMatchDelay_iff.mpr
    ⟨⟨latter.included, latter.sound, latter.unused, lasting⟩, continues.readyAt ▸ soon⟩

end Rule

namespace Engine

/-- In the course of some events a pass has an effect that arms the delay of a token, and
the token has not become void since. -/
def IsArmed (origin : Engine) (events : List Event) (effect : Effect) (token : TimerToken) :
    Prop :=
  ∃ earlier host request session later,
    events = earlier ++ .pass host request session :: later ∧
      effect ∈ ((origin.run earlier).passed host request session).2.2 ∧
      ∀ middle, middle <+: later →
        (origin.run (earlier ++ .pass host request session :: middle)).holds token = true

/-- In the course of some events something comes to the front that a rule applies to but is
not eligible for yet, and the rule has had its token since. -/
def ComesEarly (origin : Engine) (events : List Event) (rule : Rule) : Prop :=
  ∃ before host request session later,
    events = before ++ .pass host request session :: later ∧
      (origin.run before).identity ≠ some request.identity ∧
      rule.definition.appliesTo request.identity = true ∧
      rule.status request.now = .pendingMatchDelay ∧
      (origin.run (before ++ [.pass host request session])).holds rule.token = true

/-- In the course of some events, what is in front changes for the last time at a pass. -/
structure ChangesLast (origin : Engine) (events before : List Event) (host : Host)
    (last : PassRequest) (session : Session) (later : List Event) : Prop where
  split : events = before ++ .pass host last session :: later
  changed : (origin.run before).identity ≠ some last.identity
  settled : (origin.run (before ++ [.pass host last session])).changes later = []

section Changes

theorem identity_react {engine : Engine} {event : Event}
    (unchanged : engine.change? event = none) :
    (engine.react event).identity = engine.identity := by
  cases event with
  | pass host request session =>
      have known : engine.identity = some request.identity := by
        simpa [change?, changeBy?] using unchanged
      exact (engine.identity_passed host request session).trans known.symm
  | report key generation succeeded =>
      simp only [react, actionFinished]
      split <;> rfl
  | reset key now => rfl
  | configure config now => rfl

/-- If something is in front, it came there at some pass. -/
theorem exists_changesLast {origin : Engine} (unknown : origin.identity = none)
    (events : List Event) {identity : Identity}
    (known : (origin.run events).identity = some identity) :
    ∃ before host last session later,
      origin.ChangesLast events before host last session later ∧ last.identity = identity := by
  induction events using List.reverseRecOn with
  | nil => simp [run, unknown] at known
  | append_singleton events event hypothesis =>
      rw [run_append] at known
      cases change : (origin.run events).change? event with
      | none =>
          have same : ((origin.run events).react event).identity =
              (origin.run events).identity := identity_react change
          obtain ⟨before, host, last, session, later, changes, rfl⟩ :=
            hypothesis (same.symm.trans known)
          refine ⟨before, host, last, session, later ++ [event], ⟨?_, changes.changed, ?_⟩, rfl⟩
          · simp [changes.split]
          · rw [changes_append, changes.settled, ← run_append, List.append_assoc,
              List.singleton_append, ← changes.split, changes_singleton, change]
            rfl
      | some change =>
          cases event with
          | pass host request session =>
              have changed : (origin.run events).identity ≠ some request.identity := by
                intro same
                simp [change?, changeBy?, same] at change
              have front := (origin.run events).identity_passed host request session
              exact ⟨events, host, request, session, [], ⟨rfl, changed, rfl⟩,
                Option.some.inj (front.symm.trans known)⟩
          | _ => cases change

end Changes

section Arming

variable {origin : Engine} {events before later : List Event} {host : Host}
  {last : PassRequest} {session : Session}

/-- Only a pass at which what is in front changes arms the delay of a rule, and the rule
applies and is not eligible yet. -/
theorem exists_of_armMatchDelay {engine : Engine} {host : Host} {request : PassRequest}
    {session : Session} {key : String} {due : Time} {token : TimerToken}
    (armed : .armMatchDelay key due token ∈ (engine.passed host request session).2.2) :
    engine.identity ≠ some request.identity ∧
      ∃ rule ∈ (engine.enter request).1.rules.rules, rule.token = token ∧
        (engine.enter request).1.applies rule = true ∧
        rule.status request.now = .pendingMatchDelay := by
  obtain ⟨visits, _, _, effects⟩ := engine.passed_revises host request session
  rw [effects] at armed
  rcases List.mem_append.mp armed with begun | visited
  · simp only [enter] at begun ⊢
    split_ifs at begun ⊢ with same
    · cases begun
    · obtain ⟨rule, member, applies, pending, effect⟩ :=
        (refreshApplicable_isFresh _).mem_matchDelays_iff.mp begun
      cases effect
      exact ⟨same, rule, member, rfl, applies, pending⟩
  · simp only [visitEffects] at visited
    rcases List.mem_append.mp visited with made | recheck
    · obtain ⟨visit, _, effect⟩ := List.mem_filterMap.mp made
      simp only [Visit.effect?] at effect
      split at effect <;> cases effect
    · split at recheck <;> simp at recheck

/-- A pass at which what is in front changes arms the delays of the rules that apply and
are not eligible yet. -/
theorem armMatchDelay_of_changed {engine : Engine} (host : Host) {request : PassRequest}
    (session : Session) (changed : engine.identity ≠ some request.identity) {rule : Rule}
    (member : rule ∈ (engine.enter request).1.rules.rules)
    (applies : (engine.enter request).1.applies rule = true)
    (pending : rule.status request.now = .pendingMatchDelay) :
    .armMatchDelay rule.key rule.readyAt rule.token ∈
      (engine.passed host request session).2.2 := by
  obtain ⟨visits, _, _, effects⟩ := engine.passed_revises host request session
  rw [effects]
  apply List.mem_append_left
  simp only [enter, if_neg changed] at member applies ⊢
  exact (refreshApplicable_isFresh _).mem_matchDelays_iff.mpr
    ⟨rule, member, applies, pending, rfl⟩

theorem changes_ne_nil_of_mem {engine : Engine} {events rest : List Event} {host : Host}
    {request : PassRequest} {session : Session}
    (changed : (engine.run events).identity ≠ some request.identity) :
    engine.changes (events ++ .pass host request session :: rest) ≠ [] := by
  rw [changes_append, changes]
  simp [change?, changeBy?, changed]

/-- A delay that is armed was armed by the last change of what is in front or before, and
its token has been held since that change. -/
theorem IsArmed.holds_since {key : String} {due : Time} {token : TimerToken}
    (armed : origin.IsArmed events (.armMatchDelay key due token) token)
    (changes : origin.ChangesLast events before host last session later) :
    (origin.run (before ++ [.pass host last session])).holds token = true := by
  obtain ⟨earlier, host', request, session', later', split, effect, held⟩ := armed
  have cut : events = (before ++ [.pass host last session]) ++ later := by
    simp [changes.split]
  have cut' : events = (earlier ++ [.pass host' request session']) ++ later' := by
    simp [split]
  have inside : earlier ++ [.pass host' request session'] <+:
      before ++ [.pass host last session] := by
    rcases List.prefix_or_prefix_of_prefix ⟨later', cut'.symm⟩ ⟨later, cut.symm⟩ with
      here | beyond
    · exact here
    rcases List.prefix_concat_iff.mp beyond with same | ⟨between, rfl⟩
    · exact ⟨[], by simp [same]⟩
    -- a pass after the last change would have changed what is in front
    have rest : later = between ++ .pass host' request session' :: later' := by
      rw [cut] at split
      simpa using split
    have settled := changes.settled
    rw [rest] at settled
    rw [run_append] at effect
    exact absurd settled (changes_ne_nil_of_mem (exists_of_armMatchDelay effect).1)
  obtain ⟨middle, reaches⟩ := inside
  have early : middle <+: later' := by
    refine ⟨later, ?_⟩
    rw [cut, ← reaches] at cut'
    simpa using cut'
  rw [← reaches, List.append_assoc]
  exact held middle early

/-- Whoever waits for its action was armed by the pass that found it, and nothing has
happened to it since. -/
theorem isArmed_of_pendingActionDelay (fresh : origin.IsFresh)
    (idle : ∀ rule ∈ origin.rules.rules, rule.progress.delayStarted = none) {rule : Rule}
    (member : rule ∈ (origin.run events).rules.rules) {now : Time}
    (pending : rule.status now = .pendingActionDelay) :
    ∃ due, rule.actionDeadline = some due ∧
      origin.IsArmed events (.armActionDelay rule.key due rule.token) rule.token := by
  have waiting : rule.progress.delayStarted ≠ none := by
    intro idle
    have waits := Rule.isWaiting_of_pendingActionDelay pending
    simp [Rule.isWaiting, Rule.actionDeadline, idle] at waits
  obtain ⟨earlier, host, request, session, later, rfl, awaits⟩ :=
    exists_awaits_of_waiting fresh idle events rule member waiting
  refine ⟨rule.actionDueFrom request.now, ?_, earlier, host, request, session, later, rfl,
    awaits.arms.armed, ?_⟩
  · simp [Rule.actionDeadline, awaits.arms.waiting]
  · intro middle early
    rw [run_append]
    exact holds_token (awaits.undisturbed middle early)

/-- A rule with a token that an earlier engine held has not been started anew since, and
the token has not become void in between. -/
theorem exists_continues_of_holds (numbered : origin.IsNumbered) {rule : Rule}
    {front back : List Event} (member : rule ∈ (origin.run (front ++ back)).rules.rules)
    (held : (origin.run front).holds rule.token = true) :
    (∃ before ∈ (origin.run front).rules.rules, before.Continues rule) ∧
      ∀ middle, middle <+: back → (origin.run (front ++ middle)).holds rule.token = true := by
  have early := run_isNumbered numbered front
  have late := run_isNumbered numbered (front ++ back)
  rw [run_append] at member late
  constructor
  · exact ((run_precedes _ back).continues_of_holds early late member held).2
  · rintro middle ⟨rest, rfl⟩
    rw [run_append] at member late ⊢
    exact (run_precedes _ middle).holds_between (run_precedes _ rest) early late member held

/-- What a rule was when a pass began after which it has kept its token. -/
theorem exists_continues_of_enter (numbered : origin.IsNumbered) {rule : Rule}
    {request : PassRequest}
    (member : rule ∈ (origin.run (before ++ .pass host request session :: later)).rules.rules)
    (held : (origin.run (before ++ [.pass host request session])).holds rule.token = true) :
    ∃ begun ∈ ((origin.run before).enter request).1.rules.rules, begun.Continues rule := by
  rw [← List.singleton_append, ← List.append_assoc] at member
  obtain ⟨⟨after, present, continues⟩, _⟩ := exists_continues_of_holds numbered member held
  rw [run_append] at present
  obtain ⟨begun, found, continues'⟩ :=
    Rule.exists_before ((origin.run before).passed_continues host request session) present
  exact ⟨begun, found, continues'.trans continues⟩

/-- The delay of a rule that is not eligible yet is armed exactly if the rule applied, and
was not eligible yet, when something came to the front, and has had its token since. -/
theorem isArmed_iff_comesEarly (numbered : origin.IsNumbered) {rule : Rule}
    (member : rule ∈ (origin.run events).rules.rules) {now : Time}
    (pending : rule.status now = .pendingMatchDelay) :
    origin.IsArmed events (.armMatchDelay rule.key rule.readyAt rule.token) rule.token ↔
      origin.ComesEarly events rule := by
  constructor
  · rintro ⟨before, host, request, session, later, rfl, effect, held⟩
    have held' : (origin.run (before ++ [.pass host request session])).holds rule.token = true :=
      held [] List.nil_prefix
    obtain ⟨changed, found, among, token, applies, early⟩ := exists_of_armMatchDelay effect
    obtain ⟨begun, present, continues⟩ := exists_continues_of_enter numbered member held'
    -- the rule that the effect is about has the place of the one that goes on
    have begins := ((origin.run before).enter_advances request).isNumbered
      (run_isNumbered numbered before)
    obtain rfl : found = begun :=
      List.inj_on_of_nodup_map begins.distinct among present
        (congrArg (·.slot) (token.trans continues.token))
    refine ⟨before, host, request, session, later, rfl, changed, ?_,
      continues.pendingMatchDelay_after early pending, held'⟩
    simpa [Engine.applies, identity_enter, ← continues.definition] using applies
  · rintro ⟨before, host, request, session, later, rfl, changed, appliesTo, early, held⟩
    obtain ⟨begun, present, continues⟩ := exists_continues_of_enter numbered member held
    refine ⟨before, host, request, session, later, rfl, ?_, ?_⟩
    · have applies : ((origin.run before).enter request).1.applies begun = true := by
        simp [Engine.applies, identity_enter, ← continues.definition, appliesTo]
      have armed := armMatchDelay_of_changed host session changed
        present applies (continues.pendingMatchDelay (Nat.le_refl _) early)
      have key : begun.key = rule.key := by
        simp [Rule.key, continues.definition]
      rwa [key, ← continues.readyAt, ← continues.token] at armed
    · intro middle inside
      rw [← List.singleton_append, ← List.append_assoc] at member ⊢
      exact (exists_continues_of_holds numbered member held).2 middle inside

/-- A rule that is not eligible yet and has had its token since the last change of what is in
front was not eligible at that change. -/
theorem ChangesLast.comesEarly
    (changes : origin.ChangesLast events before host last session later) {rule : Rule}
    (applies : rule.definition.appliesTo last.identity = true) {now : Time}
    (ordered : last.now ≤ now) (pending : rule.status now = .pendingMatchDelay)
    (held : (origin.run (before ++ [.pass host last session])).holds rule.token = true) :
    origin.ComesEarly events rule :=
  ⟨before, host, last, session, later, changes.split, changes.changed, applies,
    (Rule.Continues.refl rule).pendingMatchDelay ordered pending, held⟩

end Arming

section Commands

/-- A rule goes on through an event that is no command for it, unless something else comes
to the front. -/
theorem exists_continues_of_react {engine : Engine} {event : Event}
    (unchanged : engine.change? event = none) {after : Rule}
    (member : after ∈ (engine.react event).rules.rules)
    (spared : ¬ event.restarts after.key) :
    ∃ before ∈ engine.rules.rules, before.Continues after := by
  cases event with
  | pass host request session =>
      have continues := engine.passed_continues host request session
      have known : engine.identity = some request.identity := by
        simpa [change?, changeBy?] using unchanged
      simp only [enter, if_pos known] at continues
      exact Rule.exists_before continues member
  | report key generation succeeded =>
      simp only [react, actionFinished] at member
      split at member
      · exact Rule.exists_before (RuleSet.forall₂_modifyFirst Rule.Continues.refl
          (fun rule _ => rule.actionFinished_continues succeeded) _) member
      · exact ⟨after, member, .refl after⟩
  | reset key now =>
      have advance : List.Forall₂ (fun before after => before.Continues after ∨ key = after.key)
          engine.rules.rules (RuleSet.modifyFirst key (·.reset now) engine.rules.rules) :=
        RuleSet.forall₂_modifyFirst (fun rule => .inl (.refl rule))
          (fun rule named => .inr named.symm) engine.rules.rules
      obtain ⟨before, old, continues | named⟩ := Rule.exists_before advance member
      · exact ⟨before, old, continues⟩
      · exact absurd named spared
  | configure config now => exact absurd trivial spared

/-- As long as nothing else comes to the front, only commands start a rule anew. -/
theorem exists_continues_of_run {engine : Engine} {events : List Event}
    (settled : engine.changes events = []) {rule : Rule}
    (member : rule ∈ (engine.run events).rules.rules)
    (spared : ∀ event ∈ events, ¬ event.restarts rule.key) :
    ∃ before ∈ engine.rules.rules, before.Continues rule := by
  induction events generalizing engine with
  | nil => exact ⟨rule, member, .refl rule⟩
  | cons event events hypothesis =>
      rw [changes, List.append_eq_nil_iff] at settled
      have unchanged : engine.change? event = none := by
        simpa using settled.1
      have spared' : ∀ later ∈ events, ¬ later.restarts rule.key := by
        intro later among
        exact spared later (List.mem_cons_of_mem _ among)
      obtain ⟨middle, present, continues⟩ := hypothesis settled.2 member spared'
      have key : middle.key = rule.key := by
        simp [Rule.key, continues.definition]
      obtain ⟨before, old, continues'⟩ := exists_continues_of_react unchanged present
        (key ▸ spared event List.mem_cons_self)
      exact ⟨before, old, continues'.trans continues⟩

theorem ChangesLast.holds_or_restarts {origin : Engine} {events before later : List Event}
    {host : Host} {last : PassRequest} {session : Session}
    (changes : origin.ChangesLast events before host last session later) {rule : Rule}
    (member : rule ∈ (origin.run events).rules.rules) :
    (origin.run (before ++ [.pass host last session])).holds rule.token = true ∨
      ∃ event ∈ later, event.restarts rule.key := by
  by_cases commanded : ∃ event ∈ later, event.restarts rule.key
  · exact .inr commanded
  have spared : ∀ event ∈ later, ¬ event.restarts rule.key := by
    simpa using commanded
  have cut : events = (before ++ [.pass host last session]) ++ later := by
    simp [changes.split]
  rw [cut, run_append] at member
  obtain ⟨holder, present, continues⟩ :=
    exists_continues_of_run changes.settled member spared
  left
  rw [continues.token]
  exact holds_token present

end Commands

/-- After a pass every rule whose action waits has its delay armed.  A rule that applies
and is not eligible yet has its delay armed exactly if it was not eligible when something it
applies to came to the front, and has had its token since.  Unless the clock runs backwards,
that is to say that it has had its token since the last change of what is in front: no
command has started it anew. -/
theorem armed_of_pending (config : EngineConfig) (timing : Timing) (began : Time)
    (events : List Event) (host : Host) (request : PassRequest) (session : Session)
    {rule : Rule}
    (member : rule ∈ ((start config timing began).run
      (events ++ [.pass host request session])).rules.rules)
    (applies : ((start config timing began).run
      (events ++ [.pass host request session])).applies rule = true) :
    let origin := start config timing began
    let all := events ++ [.pass host request session]
    (rule.status request.now = .pendingActionDelay →
      ∃ due, rule.actionDeadline = some due ∧
        origin.IsArmed all (.armActionDelay rule.key due rule.token) rule.token) ∧
    (rule.status request.now = .pendingMatchDelay →
      (origin.IsArmed all (.armMatchDelay rule.key rule.readyAt rule.token) rule.token ↔
        origin.ComesEarly all rule) ∧
      ∃ before host' last session' later, origin.ChangesLast all before host' last session' later ∧
        (last.now ≤ request.now →
          (origin.IsArmed all (.armMatchDelay rule.key rule.readyAt rule.token) rule.token ↔
            (origin.run (before ++ [.pass host' last session'])).holds rule.token = true)) ∧
        ((origin.run (before ++ [.pass host' last session'])).holds rule.token = true ∨
          ∃ event ∈ later, event.restarts rule.key)) := by
  intro origin all
  constructor
  · intro pending
    exact isArmed_of_pendingActionDelay (start_isFresh config timing began)
      (start_idle config timing began) member pending
  · intro pending
    have armed_iff : origin.IsArmed all (.armMatchDelay rule.key rule.readyAt rule.token)
        rule.token ↔ origin.ComesEarly all rule :=
      isArmed_iff_comesEarly (start_isNumbered config timing began) member pending
    have front : (origin.run all).identity = some request.identity := by
      rw [run_append]
      exact (origin.run events).identity_passed host request session
    have appliesTo : rule.definition.appliesTo request.identity = true := by
      simpa [Engine.applies, origin, all, front] using applies
    obtain ⟨before, host', last, session', later, changes, same⟩ :=
      exists_changesLast rfl all front
    refine ⟨armed_iff, before, host', last, session', later, changes, ?_,
      changes.holds_or_restarts member⟩
    intro ordered
    constructor
    · intro armed
      exact armed.holds_since changes
    · intro held
      exact armed_iff.mpr (changes.comesEarly (same ▸ appliesTo) ordered pending held)

section Reconfigured

/-- One rule for a button that may match a second after the application came to the front. -/
def lateConfig : EngineConfig :=
  { rules := [{ key := "k", selector := "[text=\"Skip\"]", matchDelay := some 1000 }] }

/-- A rule whose delay was armed at the first look has it armed at the second one. -/
theorem armed_at_second_look :
    ∃ rule ∈ ((start lateConfig {} 0).run
        (found ++ [.pass buttonHost (lookAt "a.A" 500) (.fresh 0)])).rules.rules,
      rule.status 500 = .pendingMatchDelay ∧ rule.readyAt = 1000 ∧
        (start lateConfig {} 0).IsArmed
          (found ++ [.pass buttonHost (lookAt "a.A" 500) (.fresh 0)])
          (.armMatchDelay rule.key rule.readyAt rule.token) rule.token := by
  obtain ⟨rule, member, applies, pending, due⟩ :
      ∃ rule ∈ ((start lateConfig {} 0).run
          (found ++ [.pass buttonHost (lookAt "a.A" 500) (.fresh 0)])).rules.rules,
        ((start lateConfig {} 0).run
          (found ++ [.pass buttonHost (lookAt "a.A" 500) (.fresh 0)])).applies rule = true ∧
        rule.status 500 = .pendingMatchDelay ∧ rule.readyAt = 1000 := by
    decide +kernel
  obtain ⟨_, before, host, last, session, later, changes, exactly, spared⟩ :=
    (armed_of_pending lateConfig {} 0 found buttonHost (lookAt "a.A" 500) (.fresh 0)
      member applies).2 pending
  have looks : ∀ event ∈ before ++ .pass host last session :: later,
      ∃ now ≤ 500, event = .pass buttonHost (lookAt "a.A" now) (.fresh 0) := by
    intro event among
    rw [← changes.split] at among
    rcases List.mem_append.mp among with first | second
    · exact ⟨0, Nat.zero_le 500, List.mem_singleton.mp first⟩
    · exact ⟨500, Nat.le_refl 500, List.mem_singleton.mp second⟩
  obtain ⟨now, early, same⟩ := looks (.pass host last session) (by simp)
  have ordered : last.now ≤ 500 := by
    rw [(Event.pass.inj same).2.1]
    exact early
  refine ⟨rule, member, pending, due, (exactly ordered).mpr ?_⟩
  rcases spared with held | ⟨event, among, restarts⟩
  · exact held
  · obtain ⟨_, _, rfl⟩ := looks event (by simp [among])
    exact restarts.elim

/-- A rule that another configuration starts anew waits for a wake-up that nothing has
armed. -/
theorem unarmed_after_configure :
    ¬ ∀ (config : EngineConfig) (timing : Timing) (began : Time) (events : List Event)
      (host : Host) (request : PassRequest) (session : Session) (rule : Rule),
      let origin := start config timing began
      let all := events ++ [.pass host request session]
      (origin.run all).rules.enableMatch = true → rule ∈ (origin.run all).rules.rules →
      (origin.run all).applies rule = true →
      (rule.status request.now = .pendingMatchDelay →
        origin.IsArmed all (.armMatchDelay rule.key rule.readyAt rule.token) rule.token) ∧
      (rule.status request.now = .pendingActionDelay →
        ∃ due, rule.actionDeadline = some due ∧
          origin.IsArmed all (.armActionDelay rule.key due rule.token) rule.token) := by
  intro always
  let reconfigured : List Event := found ++ [.configure lateConfig 10]
  have enabled : ((start lateConfig {} 0).run
      (reconfigured ++ [.pass buttonHost (lookAt "a.A" 20) (.fresh 0)])).rules.enableMatch =
        true := by
    decide +kernel
  obtain ⟨rule, member, applies, pending, unarmed, unarmed'⟩ :
      ∃ rule ∈ ((start lateConfig {} 0).run
          (reconfigured ++ [.pass buttonHost (lookAt "a.A" 20) (.fresh 0)])).rules.rules,
        ((start lateConfig {} 0).run
          (reconfigured ++ [.pass buttonHost (lookAt "a.A" 20) (.fresh 0)])).applies rule =
            true ∧
        rule.status 20 = .pendingMatchDelay ∧
        .armMatchDelay rule.key rule.readyAt rule.token ∉
          (((start lateConfig {} 0).run []).passed buttonHost (lookAt "a.A" 0)
            (.fresh 0)).2.2 ∧
        .armMatchDelay rule.key rule.readyAt rule.token ∉
          (((start lateConfig {} 0).run reconfigured).passed buttonHost (lookAt "a.A" 20)
            (.fresh 0)).2.2 := by
    decide +kernel
  obtain ⟨armed, _⟩ := always lateConfig {} 0 reconfigured buttonHost (lookAt "a.A" 20)
    (.fresh 0) rule enabled member applies
  obtain ⟨earlier, host, request, session, later, split, effect, _⟩ := armed pending
  -- the passes of the run are its first and its last event
  rcases earlier with _ | ⟨first, _ | ⟨second, _ | ⟨third, earlier⟩⟩⟩
  · obtain ⟨rfl, rfl, rfl⟩ := Event.pass.inj (List.cons.inj split).1
    exact unarmed effect
  · cases (List.cons.inj (List.cons.inj split).2).1
  · obtain ⟨same, rest⟩ := List.append_inj split rfl
    rw [← same] at effect
    obtain ⟨rfl, rfl, rfl⟩ := Event.pass.inj (List.cons.inj rest).1
    exact unarmed' effect
  · have longer := congrArg List.length split
    simp [reconfigured, found] at longer

end Reconfigured

end Engine

end TreeSelector

import TreeSelector.Proofs.Engine.Ledger
import TreeSelector.Proofs.Engine.Tokens

/-!
# Limits on the actions of a rule

A chronicle follows an engine through passes and reports and keeps every action that was
dispatched, with the token its rule had.  The actions of a rule under one token are those
between two resets of the rule.  All but the last of them were reported while that counted,
so the progress of the rule says how many succeeded and when the last one was dispatched.
A rule acts only where that leaves room for one more success.
-/

namespace TreeSelector

/-- An action that was dispatched. -/
structure Dispatch where
  request : ActionRequest
  time : Time
  /-- The token that the rule had. -/
  token : Option TimerToken
  /-- Whether the action succeeded, once that was reported. -/
  outcome : Option Bool := none
  deriving DecidableEq

/-- An engine with the actions it dispatched so far. -/
structure Chronicle where
  engine : Engine
  dispatches : List Dispatch

namespace Dispatch

def isOpen (dispatch : Dispatch) : Bool := dispatch.outcome = none

def isTrigger (dispatch : Dispatch) : Bool := dispatch.outcome = some true

/-- Whether an action succeeded or may yet be reported to have succeeded. -/
def mayTrigger (dispatch : Dispatch) : Bool := dispatch.outcome ≠ some false

def report (dispatch : Dispatch) (succeeded : Bool) : Dispatch :=
  { dispatch with outcome := some succeeded }

/-- When the actions were dispatched that triggered or still may. -/
def times (life : List Dispatch) : List Time := (life.filter mayTrigger).map time

@[simp] theorem times_nil : times [] = [] := rfl

@[simp] theorem times_append (life life' : List Dispatch) :
    times (life ++ life') = times life ++ times life' := by
  simp [times]

theorem times_singleton (dispatch : Dispatch) :
    times [dispatch] = if dispatch.mayTrigger then [dispatch.time] else [] := by
  simp only [times, List.filter_cons, List.filter_nil]
  split <;> rfl

/-- A report can only take an action out of those that count. -/
theorem times_report (lead tail : List Dispatch) {dispatch : Dispatch}
    (waiting : dispatch.outcome = none) (succeeded : Bool) :
    (times (lead ++ dispatch.report succeeded :: tail)).Sublist
      (times (lead ++ dispatch :: tail)) := by
  have here : (times [dispatch.report succeeded]).Sublist (times [dispatch]) := by
    cases succeeded <;> simp [times_singleton, mayTrigger, report, waiting]
  have apart : ∀ other, times (lead ++ other :: tail) =
      times lead ++ (times [other] ++ times tail) := by
    intro other
    rw [← times_append, ← times_append, List.singleton_append]
  rw [apart, apart]
  exact (List.Sublist.refl (times lead)).append (here.append (.refl (times tail)))

end Dispatch

namespace Rule

/-- A rule is as it was, as far as its actions go. -/
structure KeepsActions (before after : Rule) : Prop where
  definition : after.definition = before.definition
  token : after.token = before.token
  actionCount : after.progress.actionCount = before.progress.actionCount
  lastTrigger : after.progress.lastTrigger = before.progress.lastTrigger
  acting : after.progress.acting = before.progress.acting

namespace KeepsActions

theorem refl (rule : Rule) : rule.KeepsActions rule := by
  constructor <;> rfl

theorem key_eq {before after : Rule} (keeps : before.KeepsActions after) :
    after.key = before.key :=
  congrArg RuleDefinition.key keeps.definition

end KeepsActions

theorem forall₂_keepsActions_refl (rules : List Rule) : List.Forall₂ KeepsActions rules rules :=
  List.forall₂_same.mpr fun rule _ => .refl rule

/-- The actions under the token of a rule, told apart: those that were reported while that
counted, and the one that the rule is acting on. -/
structure Recalls (rule : Rule) (generation : Nat) (settled : List Dispatch)
    (running : Option Dispatch) : Prop where
  reported : ∀ dispatch ∈ settled, dispatch.outcome ≠ none
  count : (Dispatch.times settled).length = rule.progress.actionCount
  last : (Dispatch.times settled).getLast? = rule.progress.lastTrigger
  acting : running.map (·.time) = rule.progress.acting
  belated : ∀ dispatch ∈ running, dispatch.outcome ≠ none →
    dispatch.request.generation < generation

/-- The actions under one token keep to what a rule is configured for, however those that
are not reported yet turn out. -/
structure Permits (config : RuleConfig) (life : List Dispatch) : Prop where
  capped : ∀ maximum, config.actionMaximum = some maximum →
    (Dispatch.times life).length ≤ maximum.toNat
  spaced : ∀ cooldown, config.actionCooldown = some cooldown →
    (Dispatch.times life).Pairwise fun earlier later => earlier + cooldown.toNat ≤ later
  single : (life.filter Dispatch.isOpen).length ≤ 1

namespace Recalls

variable {rule after : Rule} {generation : Nat} {settled : List Dispatch}
  {running : Option Dispatch}

theorem begins (now : Time) : (rule.reset now).Recalls generation [] none := by
  constructor <;> simp [Rule.reset, Rule.start]

theorem later (recalls : rule.Recalls generation settled running) :
    rule.Recalls (generation + 1) settled running where
  reported := recalls.reported
  count := recalls.count
  last := recalls.last
  acting := recalls.acting
  belated := fun dispatch member reported =>
    Nat.lt_succ_of_lt (recalls.belated dispatch member reported)

theorem keep (recalls : rule.Recalls generation settled running)
    (keeps : rule.KeepsActions after) : after.Recalls generation settled running where
  reported := recalls.reported
  count := recalls.count.trans keeps.actionCount.symm
  last := recalls.last.trans keeps.lastTrigger.symm
  acting := recalls.acting.trans keeps.acting.symm
  belated := recalls.belated

/-- A rule that is ready is not acting on anything. -/
theorem running_eq_none {now : Time} (recalls : rule.Recalls generation settled running)
    (ready : rule.status now = .ready) : running = none := by
  have idle := recalls.acting
  rw [acting_eq_none_of_ready ready] at idle
  simpa using idle

theorem dispatch {now : Time} {token : Option TimerToken} {request : ActionRequest}
    (recalls : rule.Recalls generation settled none) :
    (rule.dispatch now).Recalls generation settled (some ⟨request, now, token, none⟩) where
  reported := recalls.reported
  count := recalls.count
  last := recalls.last
  acting := rfl
  belated := by simp

/-- Only the action that a rule is acting on can be waiting for its report. -/
theorem running_of_open {lead tail : List Dispatch} {dispatch : Dispatch}
    (recalls : rule.Recalls generation settled running)
    (split : lead ++ dispatch :: tail = settled ++ running.toList)
    (waiting : dispatch.outcome = none) :
    lead = settled ∧ running = some dispatch ∧ tail = [] := by
  have unsettled : dispatch ∉ settled := fun member =>
    recalls.reported dispatch member waiting
  cases running with
  | none =>
      have member : dispatch ∈ settled := by
        have among : dispatch ∈ lead ++ dispatch :: tail := by simp
        rw [split] at among
        simpa using among
      exact absurd member unsettled
  | some last =>
      rcases List.eq_nil_or_concat' tail with rfl | ⟨front, final, rfl⟩
      · obtain ⟨same, found⟩ := List.append_inj' split rfl
        simp only [Option.toList_some, List.cons.injEq, and_true] at found
        exact ⟨same, congrArg some found.symm, rfl⟩
      · rw [← List.cons_append, ← List.append_assoc] at split
        obtain ⟨same, _⟩ := List.append_inj' split rfl
        exact absurd (same ▸ by simp) unsettled

/-- A report that counts settles the action that the rule is acting on. -/
theorem report {dispatch : Dispatch}
    (recalls : rule.Recalls generation settled (some dispatch)) (succeeded : Bool) :
    (rule.actionFinished succeeded).2.Recalls generation
      (settled ++ [dispatch.report succeeded]) none := by
  have acting : rule.progress.acting = some dispatch.time := recalls.acting.symm
  have reported : ∀ other ∈ settled ++ [dispatch.report succeeded], other.outcome ≠ none := by
    intro other member
    rcases List.mem_append.mp member with earlier | here
    · exact recalls.reported other earlier
    · simp [List.mem_singleton.mp here, Dispatch.report]
  cases succeeded with
  | false =>
      constructor
      · exact reported
      · simpa [Rule.actionFinished, acting, Dispatch.times_singleton, Dispatch.mayTrigger,
          Dispatch.report] using recalls.count
      · simpa [Rule.actionFinished, acting, Dispatch.times_singleton, Dispatch.mayTrigger,
          Dispatch.report] using recalls.last
      · simp [Rule.actionFinished, acting]
      · simp
  | true =>
      constructor
      · exact reported
      · simp [Rule.actionFinished, acting, Dispatch.times_singleton, Dispatch.mayTrigger,
          Dispatch.report, recalls.count]
      · simp [Rule.actionFinished, acting, Dispatch.times_singleton, Dispatch.mayTrigger,
          Dispatch.report]
      · simp [Rule.actionFinished, acting]
      · simp

/-- A report from an older generation leaves the rule acting. -/
theorem belate {dispatch : Dispatch} (recalls : rule.Recalls generation settled (some dispatch))
    (older : dispatch.request.generation < generation) (succeeded : Bool) :
    rule.Recalls generation settled (some (dispatch.report succeeded)) where
  reported := recalls.reported
  count := recalls.count
  last := recalls.last
  acting := recalls.acting
  belated := by
    intro other member _
    obtain rfl := Option.mem_some_iff.mp member
    exact older

end Recalls

namespace Permits

theorem empty (config : RuleConfig) : Permits config [] := by
  constructor <;> simp

/-- However an action turns out, it was permitted. -/
theorem report {config : RuleConfig} {lead tail : List Dispatch} {dispatch : Dispatch}
    (permits : Permits config (lead ++ dispatch :: tail)) (waiting : dispatch.outcome = none)
    (succeeded : Bool) : Permits config (lead ++ dispatch.report succeeded :: tail) := by
  have fewer := Dispatch.times_report lead tail waiting succeeded
  constructor
  · intro maximum limit
    exact Nat.le_trans fewer.length_le (permits.capped maximum limit)
  · intro cooldown rest
    exact (permits.spaced cooldown rest).sublist fewer
  · refine Nat.le_trans ?_ permits.single
    simp only [List.filter_append, List.filter_cons, Dispatch.isOpen, Dispatch.report]
    simp [waiting]

/-- A rule that is ready may act once more. -/
theorem dispatch {rule : Rule} {generation : Nat} {life : List Dispatch} {now : Time}
    (permits : Permits rule.config life) (recalls : rule.Recalls generation life none)
    (ready : rule.status now = .ready) (request : ActionRequest) (token : Option TimerToken) :
    Permits rule.config (life ++ [⟨request, now, token, none⟩]) := by
  have isReady := Rule.status_eq_ready_iff.mp ready
  have one : Dispatch.times [⟨request, now, token, none⟩] = [now] := rfl
  constructor
  · intro maximum limit
    have room : rule.progress.actionCount < maximum.toNat := by
      simpa [Rule.isCapReached, limit] using isReady.unused
    simpa [one, recalls.count] using Nat.succ_le_of_lt room
  · intro cooldown rest
    have spaced := permits.spaced cooldown rest
    rw [Dispatch.times_append, one, List.pairwise_append]
    refine ⟨spaced, List.pairwise_singleton _ _, ?_⟩
    intro earlier member time here
    obtain rfl := List.mem_singleton.mp here
    -- the last trigger was long enough ago, and the earlier ones were before that
    rcases List.eq_nil_or_concat' (Dispatch.times life) with none | ⟨front, last, shape⟩
    · simp [none] at member
    · have known : rule.progress.lastTrigger = some last := by
        rw [← recalls.last, shape, List.getLast?_concat]
      have rested : last + cooldown.toNat ≤ time := by
        simpa [Rule.isResting, known, rest] using isReady.rested
      rw [shape, List.pairwise_append] at spaced
      rw [shape] at member
      rcases List.mem_append.mp member with before | final
      · have gap : earlier + cooldown.toNat ≤ last :=
          spaced.2.2 earlier before last List.mem_cons_self
        exact Nat.le_trans (Nat.le_trans gap (Nat.le_add_right last _)) rested
      · obtain rfl := List.mem_singleton.mp final
        exact rested
  · have settled : life.filter Dispatch.isOpen = [] := by
      simpa [Dispatch.isOpen] using recalls.reported
    simp [settled, Dispatch.isOpen]

end Permits

section Visits

variable {now : Time} {rules afters : List Rule} {visits : List Visit}

theorem Settled.keeps_or_dispatches {rule after : Rule} {finding : Finding}
    (settled : Settled now rule after finding) :
    rule.KeepsActions after ∧ (∀ node, finding ≠ .acted node) ∨
      rule.status now = .ready ∧ after = rule.dispatch now ∧ ∃ node, finding = .acted node := by
  cases settled with
  | same quiet => exact .inl ⟨.refl rule, quiet⟩
  | begins ready waits =>
      left
      constructor
      · constructor <;> simp [beginActionDelay, Rule.token]
      · simp
  | abandons ready =>
      left
      constructor
      · constructor <;> simp [abandonActionDelay, Rule.token]
      · simp
  | dispatched node ready waited => exact .inr ⟨ready, rfl, node, rfl⟩

theorem requestsAt_cons (generation : Nat) (visit : Visit) (visits : List Visit) :
    requestsAt generation (visit :: visits) =
      (request? generation visit).toList ++ requestsAt generation visits := by
  cases found : request? generation visit <;> simp [requestsAt, found]

theorem rule_of_request? {generation : Nat} {visit : Visit} {request : ActionRequest}
    (member : request ∈ (request? generation visit).toList) : request.rule = visit.rule.key := by
  simp only [request?] at member
  split at member
  · rw [List.mem_singleton.mp member]
  · cases member

theorem generation_of_mem_requestsAt {generation : Nat} {visits : List Visit}
    {request : ActionRequest} (member : request ∈ requestsAt generation visits) :
    request.generation = generation := by
  obtain ⟨visit, _, found⟩ := List.mem_filterMap.mp member
  simp only [request?] at found
  split at found
  · rw [← Option.some.inj found]
  · cases found

theorem filter_request?_eq_nil {generation : Nat} {visit : Visit} {key : String}
    (other : visit.rule.key ≠ key) :
    (request? generation visit).toList.filter (·.rule = key) = [] := by
  apply List.filter_eq_nil_iff.mpr
  intro request member
  simpa [rule_of_request? member] using other

/-- Only rules that are visited have requests. -/
theorem Visited.requests_eq_nil (visited : Visited now rules afters visits) (generation : Nat)
    {key : String} (absent : key ∉ rules.map Rule.key) :
    (requestsAt generation visits).filter (·.rule = key) = [] := by
  induction visited with
  | nil => rfl
  | skip _ hypothesis => exact hypothesis fun later => absent (List.mem_cons_of_mem _ later)
  | visit _ _ hypothesis =>
      rw [List.map_cons, List.mem_cons, not_or] at absent
      rw [requestsAt_cons, List.filter_append, hypothesis absent.2, List.append_nil]
      exact filter_request?_eq_nil (Ne.symm absent.1)

/-- A rule goes on as far as its actions go and has no request, or it was ready and has
just one. -/
theorem Visited.requests_of_mem (visited : Visited now rules afters visits)
    (distinct : (rules.map Rule.key).Nodup) (generation : Nat) {after : Rule}
    (member : after ∈ afters) :
    ∃ rule ∈ rules,
      (rule.KeepsActions after ∧
        (requestsAt generation visits).filter (·.rule = rule.key) = []) ∨
      (rule.status now = .ready ∧ after = rule.dispatch now ∧ ∃ node,
        (requestsAt generation visits).filter (·.rule = rule.key) =
          [⟨rule.key, node, rule.config.action, generation⟩]) := by
  induction visited with
  | nil => cases member
  | skip visited hypothesis =>
      rw [List.map_cons, List.nodup_cons] at distinct
      rcases List.mem_cons.mp member with rfl | later
      · exact ⟨after, List.mem_cons_self,
          .inl ⟨.refl after, visited.requests_eq_nil generation distinct.1⟩⟩
      · obtain ⟨rule, old, outcome⟩ := hypothesis distinct.2 later
        exact ⟨rule, List.mem_cons_of_mem _ old, outcome⟩
  | @visit first _ finding _ _ visits settled visited hypothesis =>
      rw [List.map_cons, List.nodup_cons] at distinct
      rcases List.mem_cons.mp member with rfl | later
      · have alone : (requestsAt generation (⟨first, finding⟩ :: visits)).filter
            (·.rule = first.key) =
              (request? generation ⟨first, finding⟩).toList.filter (·.rule = first.key) := by
          rw [requestsAt_cons, List.filter_append,
            visited.requests_eq_nil generation distinct.1, List.append_nil]
        refine ⟨first, List.mem_cons_self, ?_⟩
        rw [alone]
        rcases settled.keeps_or_dispatches with ⟨keeps, quiet⟩ | ⟨ready, rfl, node, rfl⟩
        · left
          refine ⟨keeps, ?_⟩
          cases finding with
          | acted node => exact absurd rfl (quiet node)
          | _ => rfl
        · right
          exact ⟨ready, rfl, node, by simp [request?]⟩
      · obtain ⟨rule, old, outcome⟩ := hypothesis distinct.2 later
        have other : first.key ≠ rule.key := by
          intro same
          exact distinct.1 (List.mem_map.mpr ⟨rule, old, same.symm⟩)
        refine ⟨rule, List.mem_cons_of_mem _ old, ?_⟩
        rw [requestsAt_cons, List.filter_append, filter_request?_eq_nil other, List.nil_append]
        exact outcome

end Visits

end Rule

namespace Engine

def tokenOf? (engine : Engine) (key : String) : Option TimerToken :=
  (engine.rules.find? key).map Rule.token

theorem tokenOf?_of_mem {engine : Engine} (distinct : (engine.rules.rules.map Rule.key).Nodup)
    {rule : Rule} (member : rule ∈ engine.rules.rules) :
    engine.tokenOf? rule.key = some rule.token := by
  simp only [tokenOf?, RuleSet.find?, Option.map_eq_some_iff]
  cases found : engine.rules.rules.find? (·.key == rule.key) with
  | none => simpa using List.find?_eq_none.mp found rule member
  | some other =>
      have same : other.key = rule.key := by simpa using List.find?_some found
      exact ⟨other, rfl, by
        rw [Ledger.eq_of_key_eq distinct (List.mem_of_find?_eq_some found) member same]⟩

/-- A pass visits rules as it finds them when it has begun, and its requests are those of
its visits. -/
theorem IsFresh.passed_requests {engine : Engine} (fresh : engine.IsFresh) (host : Host)
    (request : PassRequest) (session : Session) :
    let begun := (engine.enter request).1
    let outcome := engine.passed host request session
    ∃ visits, Rule.Visited request.now begun.rules.rules outcome.1.rules.rules visits ∧
      requestsOf outcome.2.2 = Rule.requestsAt begun.generation visits := by
  intro begun outcome
  obtain ⟨visits, visited, _, effects⟩ := fresh.passed_visits host request session
  refine ⟨visits, visited, ?_⟩
  rw [effects, requestsOf_append, requestsOf_enter, List.nil_append, requestsOf_visitEffects]

/-- What a report makes of the rules. -/
theorem actionFinished_outcome {engine : Engine}
    (distinct : (engine.rules.rules.map Rule.key).Nodup) (key : String) (generation : Nat)
    (succeeded : Bool) {after : Rule}
    (member : after ∈ (engine.actionFinished key generation succeeded).rules.rules) :
    ∃ rule ∈ engine.rules.rules,
      (rule.key = key ∧ generation = engine.generation ∧
        after = (rule.actionFinished succeeded).2) ∨
      ((rule.key = key → generation ≠ engine.generation) ∧ after = rule) := by
  simp only [actionFinished] at member
  split at member
  · obtain ⟨rule, old, ⟨here, same⟩ | ⟨elsewhere, same⟩⟩ :=
      Ledger.mem_modifyFirst distinct member
    · exact ⟨rule, old, .inl ⟨here, ‹_›, same⟩⟩
    · exact ⟨rule, old, .inr ⟨fun here => absurd here elsewhere, same⟩⟩
  · exact ⟨after, member, .inr ⟨fun _ => ‹_›, rfl⟩⟩

end Engine

namespace Dispatch

/-- Whether an action belongs to the rules with a key and a token. -/
def belongs (key : String) (token : Option TimerToken) (dispatch : Dispatch) : Bool :=
  dispatch.request.rule = key && dispatch.token = token

/-- The actions that an engine dispatched at some time. -/
def made (engine : Engine) (now : Time) (requests : List ActionRequest) : List Dispatch :=
  requests.map fun request => ⟨request, now, engine.tokenOf? request.rule, none⟩

theorem exists_of_mem_report {lead tail : List Dispatch} {dispatch reported : Dispatch}
    {succeeded : Bool} (member : reported ∈ lead ++ dispatch.report succeeded :: tail) :
    ∃ original ∈ lead ++ dispatch :: tail,
      reported.request = original.request ∧ reported.token = original.token := by
  simp only [List.mem_append, List.mem_cons] at member
  rcases member with before | rfl | after
  · exact ⟨reported, by simp [before], rfl, rfl⟩
  · exact ⟨dispatch, by simp, rfl, rfl⟩
  · exact ⟨reported, by simp [after], rfl, rfl⟩

theorem filter_made (engine : Engine) (now : Time) (requests : List ActionRequest)
    (key : String) (token : Option TimerToken) :
    (made engine now requests).filter (belongs key token) =
      if engine.tokenOf? key = token then
        (requests.filter (·.rule = key)).map fun request => ⟨request, now, token, none⟩
      else [] := by
  induction requests with
  | nil => simp [made]
  | cons request requests hypothesis =>
      simp only [made, List.map_cons, List.filter_cons] at hypothesis ⊢
      rw [hypothesis]
      by_cases here : request.rule = key
      · by_cases same : engine.tokenOf? key = token <;> simp [belongs, here, same]
      · simp [belongs, here]

end Dispatch

namespace Chronicle

def start (config : EngineConfig) (timing : Timing) (now : Time) : Chronicle :=
  ⟨.start config timing now, []⟩

/-- The actions of the rules with a key under a token. -/
def life (chronicle : Chronicle) (key : String) (token : Option TimerToken) : List Dispatch :=
  chronicle.dispatches.filter (Dispatch.belongs key token)

def afterPass (chronicle : Chronicle) (host : Host) (request : PassRequest)
    (session : Session) : Chronicle :=
  let outcome := chronicle.engine.passed host request session
  ⟨outcome.1,
    chronicle.dispatches ++ Dispatch.made outcome.1 request.now (requestsOf outcome.2.2)⟩

def afterReport (chronicle : Chronicle) (lead : List Dispatch) (dispatch : Dispatch)
    (tail : List Dispatch) (succeeded : Bool) : Chronicle :=
  ⟨chronicle.engine.actionFinished dispatch.request.rule dispatch.request.generation succeeded,
    lead ++ dispatch.report succeeded :: tail⟩

/-- What may happen next: any pass, and the report of any action that was not reported. -/
inductive Step (chronicle : Chronicle) : Chronicle → Prop where
  | pass (host : Host) (request : PassRequest) (session : Session) :
      Step chronicle (chronicle.afterPass host request session)
  | report {lead tail : List Dispatch} {dispatch : Dispatch} (succeeded : Bool) :
      chronicle.dispatches = lead ++ dispatch :: tail → dispatch.outcome = none →
      Step chronicle (chronicle.afterReport lead dispatch tail succeeded)

/-- A chronicle reached from a new engine. -/
def Reached (config : EngineConfig) (timing : Timing) (now : Time) (chronicle : Chronicle) :
    Prop :=
  Relation.ReflTransGen Step (start config timing now) chronicle

/-- The actions under the token of each rule are what the rule recalls, those under its
former tokens are of former generations, and all of them are permitted. -/
structure IsSound (chronicle : Chronicle) : Prop where
  distinct : (chronicle.engine.rules.rules.map Rule.key).Nodup
  dated : ∀ dispatch ∈ chronicle.dispatches,
    dispatch.request.generation ≤ chronicle.engine.generation
  former : ∀ rule ∈ chronicle.engine.rules.rules, ∀ dispatch ∈ chronicle.dispatches,
    dispatch.request.rule = rule.key → dispatch.token = some rule.token ∨
      dispatch.request.generation < chronicle.engine.generation ∧
        ∃ token, dispatch.token = some token ∧ token.epoch < rule.token.epoch
  recalled : ∀ rule ∈ chronicle.engine.rules.rules, ∃ settled running,
    chronicle.life rule.key (some rule.token) = settled ++ running.toList ∧
      rule.Recalls chronicle.engine.generation settled running
  permitted : ∀ rule ∈ chronicle.engine.rules.rules, ∀ token,
    Rule.Permits rule.config (chronicle.life rule.key token)

theorem start_isSound (config : EngineConfig) (timing : Timing) (now : Time)
    (distinct : (config.rules.map (·.key)).Nodup) : (start config timing now).IsSound := by
  constructor
  · exact (Ledger.start_isSound config now timing distinct).distinct
  · intro dispatch member
    cases member
  · intro rule _ dispatch member
    cases member
  · intro rule member
    obtain ⟨definition, token, rfl⟩ := RuleSet.exists_start_of_mem_compile member
    refine ⟨[], none, rfl, ?_⟩
    constructor <;> simp [Rule.start]
  · intro rule _ token
    exact .empty rule.config

section Steps

variable {engine : Engine} {dispatches : List Dispatch}

/-- The rules that start anew have dispatched nothing yet. -/
theorem IsSound.changeIdentity (sound : IsSound ⟨engine, dispatches⟩) (identity : Identity)
    (now : Time) : IsSound ⟨engine.changeIdentity identity now, dispatches⟩ := by
  have older : ∀ dispatch ∈ dispatches, dispatch.request.generation < engine.generation + 1 :=
    fun dispatch member => Nat.lt_succ_of_le (sound.dated dispatch member)
  constructor
  · exact Ledger.keys_changeIdentity engine identity now ▸ sound.distinct
  · exact fun dispatch member => Nat.le_of_lt (older dispatch member)
  · intro after found dispatch member named
    obtain ⟨rule, old, rfl⟩ := List.mem_map.mp found
    rw [Ledger.key_identityChanged] at named
    have known := sound.former rule old dispatch member named
    simp only [Rule.identityChanged]
    split
    · right
      refine ⟨older dispatch member, ?_⟩
      rcases known with current | ⟨_, token, held, earlier⟩
      · exact ⟨rule.token, current, Nat.lt_succ_self _⟩
      · exact ⟨token, held, Nat.lt_succ_of_lt earlier⟩
    · rcases known with current | ⟨_, token, held, earlier⟩
      · exact .inl current
      · exact .inr ⟨older dispatch member, token, held, earlier⟩
  · intro after found
    obtain ⟨rule, old, rfl⟩ := List.mem_map.mp found
    rw [Ledger.key_identityChanged]
    simp only [Rule.identityChanged]
    split
    · refine ⟨[], none, ?_, .begins now⟩
      apply List.filter_eq_nil_iff.mpr
      intro dispatch member belongs
      obtain ⟨named, held⟩ : dispatch.request.rule = rule.key ∧
          dispatch.token = some (rule.reset now).token := by
        simpa [Dispatch.belongs] using belongs
      have epoch : (rule.reset now).token.epoch = rule.token.epoch + 1 := rfl
      rcases sound.former rule old dispatch member named with current | ⟨_, token, held', earlier⟩
      · rw [← Option.some.inj (current.symm.trans held)] at epoch
        omega
      · rw [← Option.some.inj (held'.symm.trans held)] at epoch
        omega
    · obtain ⟨settled, running, split, recalls⟩ := sound.recalled rule old
      exact ⟨settled, running, split, recalls.later⟩
  · intro after found token
    obtain ⟨rule, old, rfl⟩ := List.mem_map.mp found
    have same := (rule.identityChanged_advances
      (engine.identity.all (·.appId ≠ identity.appId)) now).definition
    simp only [Rule.config, Rule.key, same]
    exact sound.permitted rule old token

/-- A rule goes on as far as its actions go, or it was ready and has one action more. -/
theorem life_visited (distinct : (engine.rules.rules.map Rule.key).Nodup) {after : Engine}
    {now : Time} {visits : List Visit}
    (visited : Rule.Visited now engine.rules.rules after.rules.rules visits) {rule : Rule}
    (member : rule ∈ after.rules.rules) :
    let added := Dispatch.made after now (Rule.requestsAt engine.generation visits)
    ∃ before ∈ engine.rules.rules,
      (before.KeepsActions rule ∧ ∀ token,
        life ⟨after, dispatches ++ added⟩ rule.key token =
          life ⟨engine, dispatches⟩ before.key token) ∨
      (before.status now = .ready ∧ rule = before.dispatch now ∧ ∃ request, ∀ token,
        life ⟨after, dispatches ++ added⟩ rule.key token =
          life ⟨engine, dispatches⟩ before.key token ++
            if some before.token = token then [⟨request, now, token, none⟩] else []) := by
  intro added
  have distinct' : (after.rules.rules.map Rule.key).Nodup := by
    rw [visited.keys_eq]
    exact distinct
  have grows : ∀ token, life ⟨after, dispatches ++ added⟩ rule.key token =
      life ⟨engine, dispatches⟩ rule.key token ++
        if some rule.token = token then
          ((Rule.requestsAt engine.generation visits).filter (·.rule = rule.key)).map
            fun request => ⟨request, now, token, none⟩
        else [] := by
    intro token
    simp only [life, added, List.filter_append, Dispatch.filter_made,
      Engine.tokenOf?_of_mem distinct' member]
  obtain ⟨before, old, ⟨keeps, quiet⟩ | ⟨ready, rfl, node, made⟩⟩ :=
    visited.requests_of_mem distinct engine.generation member
  · refine ⟨before, old, .inl ⟨keeps, ?_⟩⟩
    intro token
    rw [grows, keeps.key_eq, quiet]
    simp
  · have same : (before.dispatch now).key = before.key := rfl
    refine ⟨before, old, .inr ⟨ready, rfl,
      ⟨before.key, node, before.config.action, engine.generation⟩, ?_⟩⟩
    intro token
    rw [grows, same, made]
    rfl

/-- A pass adds the actions of the rules that it found ready. -/
theorem IsSound.visited (sound : IsSound ⟨engine, dispatches⟩) {after : Engine} {now : Time}
    {visits : List Visit}
    (visited : Rule.Visited now engine.rules.rules after.rules.rules visits)
    (generation : after.generation = engine.generation) :
    IsSound ⟨after, dispatches ++
      Dispatch.made after now (Rule.requestsAt engine.generation visits)⟩ := by
  have distinct : (after.rules.rules.map Rule.key).Nodup := by
    rw [visited.keys_eq]
    exact sound.distinct
  constructor
  · exact distinct
  · intro dispatch member
    rw [generation]
    rcases List.mem_append.mp member with earlier | new
    · exact sound.dated dispatch earlier
    · obtain ⟨request, made, rfl⟩ := List.mem_map.mp new
      exact Nat.le_of_eq (Rule.generation_of_mem_requestsAt made)
  · intro rule found dispatch member named
    rw [generation]
    rcases List.mem_append.mp member with earlier | new
    · obtain ⟨before, old, continues⟩ := Rule.exists_before visited.continues found
      rw [continues.token]
      apply sound.former before old dispatch earlier
      rw [named, Rule.key, Rule.key, continues.definition]
    · obtain ⟨request, made, rfl⟩ := List.mem_map.mp new
      left
      rw [← Engine.tokenOf?_of_mem distinct found]
      exact congrArg after.tokenOf? named
  · intro rule member
    rw [generation]
    obtain ⟨before, old, ⟨keeps, same⟩ | ⟨ready, rfl, request, grows⟩⟩ :=
      life_visited sound.distinct visited member
    · obtain ⟨settled, running, split, recalls⟩ := sound.recalled before old
      refine ⟨settled, running, ?_, recalls.keep keeps⟩
      rw [same, keeps.token]
      exact split
    · obtain ⟨settled, running, split, recalls⟩ := sound.recalled before old
      obtain rfl := recalls.running_eq_none ready
      have token : (before.dispatch now).token = before.token := rfl
      refine ⟨settled, some ⟨request, now, some before.token, none⟩, ?_, recalls.dispatch⟩
      rw [token, grows, split, if_pos rfl]
      simp
  · intro rule member token
    obtain ⟨before, old, ⟨keeps, same⟩ | ⟨ready, rfl, request, grows⟩⟩ :=
      life_visited sound.distinct visited member
    · rw [same, Rule.config, keeps.definition]
      exact sound.permitted before old token
    · rw [grows]
      split
      · rename_i current
        obtain ⟨settled, running, split, recalls⟩ := sound.recalled before old
        obtain rfl := recalls.running_eq_none ready
        have permits := sound.permitted before old token
        rw [Option.toList_none, List.append_nil] at split
        rw [← current, split] at permits ⊢
        exact permits.dispatch recalls ready request (some before.token)
      · rw [List.append_nil]
        exact sound.permitted before old token

theorem IsSound.afterPass {chronicle : Chronicle} (sound : chronicle.IsSound)
    (fresh : chronicle.engine.IsFresh) (host : Host) (request : PassRequest)
    (session : Session) :
    (chronicle.afterPass host request session).IsSound := by
  have begun : IsSound ⟨(chronicle.engine.enter request).1, chronicle.dispatches⟩ := by
    simp only [Engine.enter]
    split
    · exact ⟨sound.distinct, sound.dated, sound.former, sound.recalled, sound.permitted⟩
    · have counted : IsSound ⟨{ chronicle.engine with passes := chronicle.engine.passes + 1 },
          chronicle.dispatches⟩ :=
        ⟨sound.distinct, sound.dated, sound.former, sound.recalled, sound.permitted⟩
      exact counted.changeIdentity request.identity request.now
  obtain ⟨visits, visited, emitted⟩ := fresh.passed_requests host request session
  simp only [Chronicle.afterPass, emitted]
  exact begun.visited visited (chronicle.engine.generation_passed host request session)

/-- The report of an action changes nothing but the life it belongs to. -/
theorem life_report (engine engine' : Engine) (lead tail : List Dispatch) (dispatch : Dispatch)
    (succeeded : Bool) (key : String) (token : Option TimerToken) :
    let before := life ⟨engine, lead ++ dispatch :: tail⟩ key token
    let after := life ⟨engine', lead ++ dispatch.report succeeded :: tail⟩ key token
    (¬ dispatch.belongs key token = true ∧ after = before) ∨
      (dispatch.belongs key token = true ∧ ∃ lead' tail', before = lead' ++ dispatch :: tail' ∧
        after = lead' ++ dispatch.report succeeded :: tail') := by
  intro before after
  simp only [before, after, life, List.filter_append]
  by_cases belongs : dispatch.belongs key token = true
  · have reported : (dispatch.report succeeded).belongs key token = true := belongs
    rw [List.filter_cons_of_pos belongs, List.filter_cons_of_pos reported]
    exact .inr ⟨belongs, _, _, rfl, rfl⟩
  · have reported : ¬ (dispatch.report succeeded).belongs key token = true := belongs
    rw [List.filter_cons_of_neg belongs, List.filter_cons_of_neg reported]
    exact .inl ⟨belongs, rfl⟩

theorem IsSound.recalled_report {lead tail : List Dispatch} {dispatch : Dispatch}
    (sound : IsSound ⟨engine, lead ++ dispatch :: tail⟩) (waiting : dispatch.outcome = none)
    (succeeded : Bool) {rule : Rule} (member : rule ∈ engine.rules.rules)
    (belongs : dispatch.belongs rule.key (some rule.token) = true) (engine' : Engine) :
    ∃ settled, rule.Recalls engine.generation settled (some dispatch) ∧
      life ⟨engine', lead ++ dispatch.report succeeded :: tail⟩ rule.key (some rule.token) =
        settled ++ [dispatch.report succeeded] := by
  obtain ⟨settled, running, split, recalls⟩ := sound.recalled rule member
  rcases life_report engine engine' lead tail dispatch succeeded rule.key
    (some rule.token) with ⟨stranger, _⟩ | ⟨_, lead', tail', before, after⟩
  · exact absurd belongs stranger
  · obtain ⟨rfl, rfl, rfl⟩ := recalls.running_of_open (before.symm.trans split) waiting
    exact ⟨lead', recalls, after⟩

/-- A report settles the action of its rule, or it comes too late for that. -/
theorem IsSound.afterReport {lead tail : List Dispatch} {dispatch : Dispatch}
    (sound : IsSound ⟨engine, lead ++ dispatch :: tail⟩) (waiting : dispatch.outcome = none)
    (succeeded : Bool) :
    (Chronicle.afterReport ⟨engine, lead ++ dispatch :: tail⟩ lead dispatch tail
      succeeded).IsSound := by
  have generation : (engine.actionFinished dispatch.request.rule dispatch.request.generation
      succeeded).generation = engine.generation :=
    engine.generation_react (.report dispatch.request.rule dispatch.request.generation succeeded)
  have listed : dispatch ∈ lead ++ dispatch :: tail := by simp
  have outcome := @Engine.actionFinished_outcome engine sound.distinct dispatch.request.rule
    dispatch.request.generation succeeded
  have same : ∀ after ∈ (engine.actionFinished dispatch.request.rule
      dispatch.request.generation succeeded).rules.rules, ∃ rule ∈ engine.rules.rules,
        after.definition = rule.definition ∧ after.token = rule.token := by
    intro after member
    obtain ⟨rule, old, ⟨_, _, rfl⟩ | ⟨_, rfl⟩⟩ := outcome member
    · have continues := rule.actionFinished_continues succeeded
      exact ⟨rule, old, continues.definition, continues.token⟩
    · exact ⟨after, old, rfl, rfl⟩
  constructor
  · have keys : (engine.actionFinished dispatch.request.rule dispatch.request.generation
        succeeded).rules.rules.map Rule.key = engine.rules.rules.map Rule.key := by
      simp only [Engine.actionFinished]
      split
      · exact Ledger.keys_modifyFirst _ fun rule => Ledger.key_actionFinished rule succeeded
      · rfl
    exact keys ▸ sound.distinct
  · intro reported member
    obtain ⟨original, found, request, _⟩ := Dispatch.exists_of_mem_report member
    rw [request, Chronicle.afterReport, generation]
    exact sound.dated original found
  · intro after found reported member named
    obtain ⟨original, present, request, token⟩ := Dispatch.exists_of_mem_report member
    obtain ⟨rule, old, definition, held⟩ := same after found
    rw [request, Chronicle.afterReport, generation, token, held]
    apply sound.former rule old original present
    rw [← request, named, Rule.key, Rule.key, definition]
  · intro after member
    rw [Chronicle.afterReport, generation]
    obtain ⟨rule, old, ⟨here, dated, rfl⟩ | ⟨apart, rfl⟩⟩ := outcome member
    · have continues := rule.actionFinished_continues succeeded
      have key : (rule.actionFinished succeeded).2.key = rule.key :=
        Ledger.key_actionFinished rule succeeded
      have held : dispatch.token = some rule.token := by
        rcases sound.former rule old dispatch listed here.symm with current | ⟨older, _⟩
        · exact current
        · exact absurd dated (Nat.ne_of_lt older)
      obtain ⟨settled, recalls, split⟩ := sound.recalled_report waiting succeeded old
        (by simp [Dispatch.belongs, here, held]) _
      refine ⟨settled ++ [dispatch.report succeeded], none, ?_, recalls.report succeeded⟩
      rw [key, continues.token, split]
      simp
    · by_cases belongs : dispatch.belongs after.key (some after.token) = true
      · have here : after.key = dispatch.request.rule := by
          have both : dispatch.request.rule = after.key ∧ dispatch.token = some after.token := by
            simpa [Dispatch.belongs] using belongs
          exact both.1.symm
        have older : dispatch.request.generation < engine.generation :=
          Nat.lt_of_le_of_ne (sound.dated dispatch listed) (apart here)
        obtain ⟨settled, recalls, split⟩ := sound.recalled_report waiting succeeded old belongs _
        exact ⟨settled, some (dispatch.report succeeded), split, recalls.belate older succeeded⟩
      · obtain ⟨settled, running, split, recalls⟩ := sound.recalled after old
        rcases life_report engine _ lead tail dispatch succeeded after.key (some after.token) with
          ⟨_, kept⟩ | ⟨belongs', _⟩
        · exact ⟨settled, running, kept.trans split, recalls⟩
        · exact absurd belongs' belongs
  · intro after member token
    obtain ⟨rule, old, definition, _⟩ := same after member
    have permits := sound.permitted rule old token
    rw [Rule.config, Rule.key, definition]
    rcases life_report engine _ lead tail dispatch succeeded rule.key token with
      ⟨_, kept⟩ | ⟨_, lead', tail', before, after⟩
    · exact kept ▸ permits
    · exact after ▸ (before ▸ permits).report waiting succeeded

theorem Reached.isFresh {config : EngineConfig} {timing : Timing} {now : Time}
    {chronicle : Chronicle} (reached : Reached config timing now chronicle) :
    chronicle.engine.IsFresh := by
  induction reached with
  | refl => exact Engine.start_isFresh config timing now
  | tail _ step hypothesis =>
      cases step with
      | pass host request session => exact hypothesis.react (.pass host request session)
      | @report _ _ dispatch succeeded _ _ =>
          let request := dispatch.request
          exact hypothesis.react (.report request.rule request.generation succeeded)

theorem Reached.isSound {config : EngineConfig} {timing : Timing} {now : Time}
    {chronicle : Chronicle} (reached : Reached config timing now chronicle)
    (distinct : (config.rules.map (·.key)).Nodup) : chronicle.IsSound := by
  induction reached with
  | refl => exact start_isSound config timing now distinct
  | @tail earlier _ reached step hypothesis =>
      cases step with
      | pass host request session =>
          exact hypothesis.afterPass (Reached.isFresh reached) host request session
      | report succeeded split waiting =>
          obtain ⟨engine, dispatches⟩ := earlier
          obtain rfl : dispatches = _ := split
          exact hypothesis.afterReport waiting succeeded

end Steps

/-- Of the actions that a rule dispatches between two resets no more succeed than it may
trigger, they are at least its cooldown apart, and at no time two of them are waiting for
their reports. -/
theorem triggers_within_limits {config : EngineConfig} {timing : Timing} {now : Time}
    {chronicle : Chronicle} (distinct : (config.rules.map (·.key)).Nodup)
    (reached : Reached config timing now chronicle) {rule : Rule}
    (member : rule ∈ chronicle.engine.rules.rules) (token : Option TimerToken) :
    let life := chronicle.life rule.key token
    let triggers := life.filter Dispatch.isTrigger
    (∀ maximum, rule.config.actionMaximum = some maximum →
      triggers.length ≤ maximum.toNat) ∧
    (∀ cooldown, rule.config.actionCooldown = some cooldown →
      triggers.Pairwise fun earlier later => earlier.time + cooldown.toNat ≤ later.time) ∧
    (life.filter Dispatch.isOpen).length ≤ 1 := by
  intro life triggers
  have permits : Rule.Permits rule.config life :=
    (reached.isSound distinct).permitted rule member token
  have counted : (triggers.map (·.time)).Sublist (Dispatch.times life) := by
    apply List.Sublist.map
    apply List.monotone_filter_right
    intro dispatch
    simp only [Dispatch.isTrigger, Dispatch.mayTrigger, decide_eq_true_eq]
    intro succeeded
    simp [succeeded]
  refine ⟨?_, ?_, permits.single⟩
  · intro maximum limit
    simpa using Nat.le_trans counted.length_le (permits.capped maximum limit)
  · intro cooldown rest
    exact List.pairwise_map.mp ((permits.spaced cooldown rest).sublist counted)

section Limited

open Ledger (skipHost passIn)

/-- One rule for a button that may act twice and rests in between. -/
def limitedConfig : EngineConfig :=
  { rules := [{ key := "k", selector := "[text=\"Skip\"]", actionMaximum := some 2,
                actionCooldown := some 50 }] }

/-- The action on the button at some time. -/
def skipAt (now : Time) : Dispatch := ⟨⟨"k", 1, .click, 1⟩, now, some ⟨0, 0, 1⟩, none⟩

/-- The rule acts, that is reported, and it acts again. -/
def actedTwice : Chronicle :=
  (((start limitedConfig {} 0).afterPass skipHost (passIn "a.A" 0) (.fresh 0)).afterReport
    [] (skipAt 0) [] true).afterPass skipHost (passIn "a.A" 100) (.fresh 0)

theorem actedTwice_reached : Reached limitedConfig {} 0
    (actedTwice.afterReport [(skipAt 0).report true] (skipAt 100) [] true) := by
  have first : ((start limitedConfig {} 0).afterPass skipHost (passIn "a.A" 0)
      (.fresh 0)).dispatches = [] ++ skipAt 0 :: [] := by
    decide +kernel
  have second : actedTwice.dispatches = [(skipAt 0).report true] ++ skipAt 100 :: [] := by
    decide +kernel
  have begun : Reached limitedConfig {} 0
      ((start limitedConfig {} 0).afterPass skipHost (passIn "a.A" 0) (.fresh 0)) :=
    .single (.pass _ _ _)
  have reported : Reached limitedConfig {} 0
      (((start limitedConfig {} 0).afterPass skipHost (passIn "a.A" 0) (.fresh 0)).afterReport
        [] (skipAt 0) [] true) :=
    begun.tail (.report true first rfl)
  have again : Reached limitedConfig {} 0 actedTwice :=
    reported.tail (.pass skipHost (passIn "a.A" 100) (.fresh 0))
  exact again.tail (.report true second rfl)

theorem actedTwice_within_limits :
    ∃ rule ∈ (actedTwice.afterReport [(skipAt 0).report true] (skipAt 100) []
        true).engine.rules.rules,
      let life := (actedTwice.afterReport [(skipAt 0).report true] (skipAt 100) []
        true).life rule.key (some ⟨0, 0, 1⟩)
      let triggers := life.filter Dispatch.isTrigger
      triggers.map (·.time) = [0, 100] ∧ triggers.length ≤ 2 ∧
        (triggers.Pairwise fun earlier later => earlier.time + 50 ≤ later.time) ∧
        (life.filter Dispatch.isOpen).length ≤ 1 := by
  obtain ⟨rule, member, times, maximum, cooldown⟩ :
      ∃ rule ∈ (actedTwice.afterReport [(skipAt 0).report true] (skipAt 100) []
          true).engine.rules.rules,
        (((actedTwice.afterReport [(skipAt 0).report true] (skipAt 100) []
          true).life rule.key (some ⟨0, 0, 1⟩)).filter Dispatch.isTrigger).map (·.time) =
            [0, 100] ∧
        rule.config.actionMaximum = some 2 ∧ rule.config.actionCooldown = some 50 := by
    decide +kernel
  obtain ⟨capped, spaced, single⟩ := triggers_within_limits (by decide) actedTwice_reached
    member (some ⟨0, 0, 1⟩)
  exact ⟨rule, member, times, capped 2 maximum, spaced 50 cooldown, single⟩

end Limited

end Chronicle

end TreeSelector

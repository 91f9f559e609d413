import Mathlib.Data.List.Forall2
import Mathlib.Data.List.Nodup
import TreeSelector.Proofs.Engine.Runs

/-!
# Tokens are never used again

Whatever happens to an engine, its rules keep their places, and a rule either goes on
with its token or is started anew with a later one.  Another configuration numbers its
rules anew.  So a token that is void stays void, and a rule that still has an old token
has not been started anew.
-/

namespace TreeSelector

theorem set_eq_of_getElem? {α : Type} {items : List α} {place : Nat} {item : α}
    (found : items[place]? = some item) : items.set place item = items := by
  obtain ⟨inside, rfl⟩ := List.getElem?_eq_some_iff.mp found
  exact List.set_getElem_self inside

namespace Rule

theorem exists_before {relation : Rule → Rule → Prop} {rules afters : List Rule}
    (all : List.Forall₂ relation rules afters) {after : Rule} (member : after ∈ afters) :
    ∃ before ∈ rules, relation before after := by
  induction all with
  | nil => cases member
  | cons related _ hypothesis =>
      rcases List.mem_cons.mp member with rfl | later
      · exact ⟨_, List.mem_cons_self, related⟩
      · obtain ⟨before, old, found⟩ := hypothesis later
        exact ⟨before, List.mem_cons_of_mem _ old, found⟩

theorem exists_at {relation : Rule → Rule → Prop} {rules afters : List Rule}
    (all : List.Forall₂ relation rules afters) {place : Nat} {after : Rule}
    (placed : afters[place]? = some after) :
    ∃ rule, rules[place]? = some rule ∧ relation rule after := by
  induction all generalizing place with
  | nil => cases placed
  | cons related _ hypothesis =>
      cases place with
      | zero =>
          obtain rfl := Option.some.inj placed
          exact ⟨_, rfl, related⟩
      | succ place => exact hypothesis placed

theorem forall₂_trans {relation : Rule → Rule → Prop} {first second third : List Rule}
    (front : List.Forall₂ relation first second) (back : List.Forall₂ relation second third)
    (trans : ∀ {before middle after}, relation before middle → relation middle after →
      relation before after) : List.Forall₂ relation first third := by
  induction front generalizing third with
  | nil => exact back
  | cons related _ hypothesis =>
      cases back with
      | cons related' rest => exact .cons (trans related related') (hypothesis rest)

theorem forall₂_set {relation : Rule → Rule → Prop} (keeps : ∀ rule, relation rule rule)
    {rules : List Rule} {place : Nat} {rule after : Rule} (found : rules[place]? = some rule)
    (related : relation rule after) : List.Forall₂ relation rules (rules.set place after) := by
  induction rules generalizing place with
  | nil => exact .nil
  | cons first rules hypothesis =>
      cases place with
      | zero =>
          obtain rfl := Option.some.inj found
          exact .cons related (List.forall₂_same.mpr fun rule _ => keeps rule)
      | succ place => exact .cons (keeps first) (hypothesis found)

/-- What does not change about a rule, or only grows, until it is started anew. -/
structure Continues (before after : Rule) : Prop where
  definition : after.definition = before.definition
  token : after.token = before.token
  changedAt : after.progress.changedAt = before.progress.changedAt
  count : before.progress.actionCount ≤ after.progress.actionCount

/-- A rule goes on, or was started anew with a later token. -/
structure Advances (before after : Rule) : Prop where
  definition : after.definition = before.definition
  series : after.token.series = before.token.series
  slot : after.token.slot = before.token.slot
  life : before.Continues after ∨ before.token.epoch < after.token.epoch

namespace Continues

theorem refl (rule : Rule) : rule.Continues rule := by
  constructor <;> simp

theorem trans {first second third : Rule} (front : first.Continues second)
    (back : second.Continues third) : first.Continues third where
  definition := back.definition.trans front.definition
  token := back.token.trans front.token
  changedAt := back.changedAt.trans front.changedAt
  count := Nat.le_trans front.count back.count

theorem advances {before after : Rule} (continues : before.Continues after) :
    before.Advances after := by
  constructor
  · exact continues.definition
  · rw [continues.token]
  · rw [continues.token]
  · exact .inl continues

end Continues

namespace Advances

theorem epoch_le {before after : Rule} (advances : before.Advances after) :
    before.token.epoch ≤ after.token.epoch := by
  rcases advances.life with continues | later
  · exact Nat.le_of_eq (congrArg (·.epoch) continues.token.symm)
  · exact Nat.le_of_lt later

theorem refl (rule : Rule) : rule.Advances rule :=
  (Continues.refl rule).advances

theorem trans {first second third : Rule} (front : first.Advances second)
    (back : second.Advances third) : first.Advances third := by
  constructor
  · exact back.definition.trans front.definition
  · exact back.series.trans front.series
  · exact back.slot.trans front.slot
  · rcases front.life with continues | later
    · rcases back.life with continues' | later'
      · exact .inl (continues.trans continues')
      · right
        rwa [← continues.token]
    · exact .inr (Nat.lt_of_lt_of_le later back.epoch_le)

theorem slots_eq {rules afters : List Rule} (advance : List.Forall₂ Advances rules afters) :
    afters.map (·.token.slot) = rules.map (·.token.slot) := by
  induction advance with
  | nil => rfl
  | cons advances _ hypothesis => simp [advances.slot, hypothesis]

theorem keys_eq {rules afters : List Rule} (advance : List.Forall₂ Advances rules afters) :
    afters.map Rule.key = rules.map Rule.key := by
  induction advance with
  | nil => rfl
  | cons advances _ hypothesis => simp [Rule.key, advances.definition, hypothesis]

/-- A rule that has the token it had was not started anew. -/
theorem continues_of_epoch_le {before after : Rule} (advances : before.Advances after)
    (early : after.token.epoch ≤ before.token.epoch) : before.Continues after := by
  rcases advances.life with continues | later
  · exact continues
  · exact absurd later (Nat.not_lt.mpr early)

end Advances

theorem reset_advances (rule : Rule) (now : Time) : rule.Advances (rule.reset now) := by
  constructor
  · rfl
  · rfl
  · rfl
  · exact .inr (Nat.lt_succ_self _)

theorem identityChanged_advances (rule : Rule) (appChanged : Bool) (now : Time) :
    rule.Advances (rule.identityChanged appChanged now) := by
  simp only [identityChanged]
  split
  · exact rule.reset_advances now
  · exact .refl rule

theorem actionFinished_continues (rule : Rule) (succeeded : Bool) :
    rule.Continues (rule.actionFinished succeeded).2 := by
  simp only [actionFinished]
  split
  · exact .refl rule
  · cases succeeded <;> constructor <;> simp [Rule.token]

theorem Settled.continues {now : Time} {rule after : Rule} {finding : Finding}
    (settled : Settled now rule after finding) : rule.Continues after := by
  cases settled <;> constructor <;>
    simp [beginActionDelay, abandonActionDelay, dispatch, Rule.token]

theorem Revised.continues {now : Time} {rules afters : List Rule} {visits : List Visit}
    (revised : Revised now rules afters visits) : List.Forall₂ Continues rules afters := by
  induction revised with
  | done rules => exact List.forall₂_same.mpr fun rule _ => .refl rule
  | visit found settled _ hypothesis =>
      have once := forall₂_set Continues.refl found settled.continues
      exact forall₂_trans once hypothesis Continues.trans

theorem Visited.continues {now : Time} {rules afters : List Rule} {visits : List Visit}
    (visited : Visited now rules afters visits) : List.Forall₂ Continues rules afters := by
  induction visited with
  | nil => exact .nil
  | skip _ hypothesis => exact .cons (.refl _) hypothesis
  | visit settled _ hypothesis => exact .cons settled.continues hypothesis

end Rule

namespace RuleSet

theorem forall₂_modifyFirst {relation : Rule → Rule → Prop} {key : String}
    {change : Rule → Rule} (keeps : ∀ rule, relation rule rule)
    (changes : ∀ rule, rule.key = key → relation rule (change rule)) (rules : List Rule) :
    List.Forall₂ relation rules (modifyFirst key change rules) := by
  induction rules with
  | nil => exact .nil
  | cons rule rules hypothesis =>
      simp only [modifyFirst]
      split
      · exact .cons (changes rule ‹_›) (List.forall₂_same.mpr fun rule _ => keeps rule)
      · exact .cons (keeps rule) hypothesis

/-- Changing the first rule with a key changes what is at its place. -/
theorem getElem?_modifyFirst {key : String} {change : Rule → Rule} {rules : List Rule}
    {place : Nat} {after : Rule} (placed : (modifyFirst key change rules)[place]? = some after) :
    ∃ rule, rules[place]? = some rule ∧
      after = if rules.findIdx? (·.key = key) = some place then change rule else rule := by
  induction rules generalizing place with
  | nil => cases placed
  | cons first rules hypothesis =>
      rw [modifyFirst] at placed
      rw [List.findIdx?_cons]
      by_cases here : first.key = key
      · rw [if_pos here] at placed
        rw [if_pos (decide_eq_true here)]
        cases place with
        | zero => exact ⟨first, rfl, (Option.some.inj placed).symm⟩
        | succ place => exact ⟨after, placed, by simp⟩
      · rw [if_neg here] at placed
        rw [if_neg (by simpa using here)]
        cases place with
        | zero =>
            refine ⟨first, rfl, ?_⟩
            rw [← Option.some.inj placed, if_neg (by simp)]
        | succ place =>
            obtain ⟨rule, found, same⟩ := hypothesis placed
            refine ⟨rule, found, ?_⟩
            rw [same]
            simp

-- without this every equation about a compiled rule set would read its selectors
attribute [local irreducible] RuleDefinition.compile

/-- The rules that can be read are numbered in order. -/
theorem slots_compileAll (config : EngineConfig) (series : Nat) (now : Time) (slot : Nat)
    (configs : List RuleConfig) :
    ((compileAll config series now slot configs).1.map (·.token.slot)).Nodup ∧
      ∀ rule ∈ (compileAll config series now slot configs).1,
        rule.token.series = series ∧ slot ≤ rule.token.slot := by
  induction configs generalizing slot with
  | nil => exact ⟨List.nodup_nil, fun rule member => absurd member List.not_mem_nil⟩
  | cons first configs hypothesis =>
      rw [compileAll_cons]
      cases RuleDefinition.compile first config with
      | error error => exact hypothesis slot
      | ok definition =>
          obtain ⟨distinct, numbered⟩ := hypothesis (slot + 1)
          constructor
          · simp only [List.map_cons, List.nodup_cons, List.mem_map, not_exists, not_and]
            refine ⟨?_, distinct⟩
            intro rule member same
            have later : slot + 1 ≤ rule.token.slot := (numbered rule member).2
            rw [same] at later
            exact Nat.not_succ_le_self slot later
          · intro rule member
            rcases List.mem_cons.mp member with rfl | among
            · exact ⟨rfl, Nat.le_refl slot⟩
            · obtain ⟨belongs, later⟩ := numbered rule among
              exact ⟨belongs, Nat.le_of_succ_le later⟩

end RuleSet

namespace Engine

/-- No two rules of an engine have the same token, and all belong to its rule set. -/
structure IsNumbered (engine : Engine) : Prop where
  distinct : (engine.rules.rules.map (·.token.slot)).Nodup
  series : ∀ rule ∈ engine.rules.rules, rule.token.series = engine.series

/-- An engine, and what becomes of it as long as its configuration stays in force. -/
structure Advances (engine newer : Engine) : Prop where
  series : newer.series = engine.series
  rules : List.Forall₂ Rule.Advances engine.rules.rules newer.rules.rules

/-- An engine, and what becomes of it. -/
def Precedes (engine newer : Engine) : Prop :=
  engine.series < newer.series ∨ engine.Advances newer

theorem compile_isNumbered (config : EngineConfig) (series : Nat) (now : Time) :
    ((RuleSet.compile config series now).rules.map (·.token.slot)).Nodup ∧
      ∀ rule ∈ (RuleSet.compile config series now).rules, rule.token.series = series := by
  obtain ⟨distinct, numbered⟩ := RuleSet.slots_compileAll config series now 0 config.rules
  have sorted : (RuleSet.compile config series now).rules.Perm
      (RuleSet.compileAll config series now 0 config.rules).1 := List.mergeSort_perm _ _
  constructor
  · exact (sorted.map _).nodup_iff.mpr distinct
  · intro rule member
    exact (numbered rule (sorted.mem_iff.mp member)).1

theorem start_isNumbered (config : EngineConfig) (timing : Timing) (now : Time) :
    (start config timing now).IsNumbered := by
  obtain ⟨distinct, numbered⟩ := compile_isNumbered config 0 now
  exact ⟨distinct, numbered⟩

theorem holds_token {engine : Engine} {rule : Rule} (member : rule ∈ engine.rules.rules) :
    engine.holds rule.token = true := by
  simp only [holds, RuleSet.holds, List.any_eq_true, decide_eq_true_eq]
  exact ⟨rule, member, rfl⟩

namespace Advances

theorem refl (engine : Engine) : engine.Advances engine :=
  ⟨rfl, List.forall₂_same.mpr fun rule _ => Rule.Advances.refl rule⟩

theorem trans {first second third : Engine} (front : first.Advances second)
    (back : second.Advances third) : first.Advances third where
  series := back.series.trans front.series
  rules := Rule.forall₂_trans front.rules back.rules Rule.Advances.trans

theorem isNumbered {engine newer : Engine} (advances : engine.Advances newer)
    (numbered : engine.IsNumbered) : newer.IsNumbered := by
  constructor
  · rw [Rule.Advances.slots_eq advances.rules]
    exact numbered.distinct
  · intro after member
    obtain ⟨before, old, advance⟩ := Rule.exists_before advances.rules member
    rw [advance.series, advances.series, numbered.series before old]

end Advances

section Steps

theorem enter_advances (engine : Engine) (request : PassRequest) :
    engine.Advances (engine.enter request).1 := by
  simp only [enter]
  split
  · exact ⟨rfl, List.forall₂_same.mpr fun rule _ => Rule.Advances.refl rule⟩
  · refine ⟨rfl, ?_⟩
    rw [rules_changeIdentity, List.forall₂_map_right_iff]
    exact List.forall₂_same.mpr fun rule _ => rule.identityChanged_advances _ _

/-- The rules that a pass finds when it has begun go on. -/
theorem passed_continues (engine : Engine) (host : Host) (request : PassRequest)
    (session : Session) :
    List.Forall₂ Rule.Continues (engine.enter request).1.rules.rules
      (engine.passed host request session).1.rules.rules := by
  obtain ⟨visits, revised, _⟩ := engine.passed_revises host request session
  exact revised.continues

theorem passed_advances (engine : Engine) (host : Host) (request : PassRequest)
    (session : Session) :
    (engine.enter request).1.Advances (engine.passed host request session).1 := by
  constructor
  · rw [passed_rules]
  · exact (engine.passed_continues host request session).imp fun _ _ continues =>
      continues.advances

/-- Without another configuration all rules stay in their places. -/
theorem react_advances (engine : Engine) {event : Event}
    (keeps : ∀ config now, event ≠ .configure config now) :
    engine.Advances (engine.react event) := by
  cases event with
  | pass host request session =>
      exact (engine.enter_advances request).trans (engine.passed_advances host request session)
  | report key generation succeeded =>
      simp only [react, actionFinished]
      split
      · exact ⟨rfl, RuleSet.forall₂_modifyFirst Rule.Advances.refl
          (fun rule _ => (rule.actionFinished_continues succeeded).advances) _⟩
      · exact .refl engine
  | reset key now =>
      exact ⟨rfl, RuleSet.forall₂_modifyFirst Rule.Advances.refl
        (fun rule _ => rule.reset_advances now) _⟩
  | configure config now => exact absurd rfl (keeps config now)

theorem react_precedes (engine : Engine) (event : Event) :
    engine.Precedes (engine.react event) := by
  cases event with
  | configure config now => exact .inl (Nat.lt_succ_self engine.series)
  | _ => exact .inr (engine.react_advances (by simp))

theorem react_isNumbered {engine : Engine} (numbered : engine.IsNumbered) (event : Event) :
    (engine.react event).IsNumbered := by
  cases event with
  | configure config now =>
      obtain ⟨distinct, series⟩ := compile_isNumbered config (engine.series + 1) now
      exact ⟨distinct, series⟩
  | _ => exact (engine.react_advances (by simp)).isNumbered numbered

end Steps

namespace Precedes

variable {first second third : Engine}

theorem series_le (precedes : first.Precedes second) : first.series ≤ second.series := by
  rcases precedes with later | advances
  · exact Nat.le_of_lt later
  · exact Nat.le_of_eq advances.series.symm

theorem trans (front : first.Precedes second) (back : second.Precedes third) :
    first.Precedes third := by
  rcases front with later | advances
  · exact .inl (Nat.lt_of_lt_of_le later back.series_le)
  · rcases back with later' | advances'
    · left
      rwa [← advances.series]
    · exact .inr (advances.trans advances')

/-- A rule with a token of an earlier engine has not been started anew since. -/
theorem continues_of_holds (precedes : first.Precedes second) (numbered : first.IsNumbered)
    (numbered' : second.IsNumbered) {rule : Rule} (member : rule ∈ second.rules.rules)
    (held : first.holds rule.token = true) :
    first.Advances second ∧ ∃ before ∈ first.rules.rules, before.Continues rule := by
  obtain ⟨holder, present, same⟩ : ∃ holder ∈ first.rules.rules, holder.token = rule.token := by
    simpa [holds, RuleSet.holds] using held
  rcases precedes with later | advances
  · have series : first.series = second.series := by
      rw [← numbered.series holder present, same, numbered'.series rule member]
    exact absurd series (Nat.ne_of_lt later)
  · obtain ⟨before, old, advance⟩ := Rule.exists_before advances.rules member
    have place : before.token.slot = holder.token.slot := by
      rw [← advance.slot, same]
    obtain rfl : before = holder :=
      List.inj_on_of_nodup_map numbered.distinct old present place
    have early : rule.token.epoch ≤ before.token.epoch := by
      simp [same]
    exact ⟨advances, before, old, advance.continues_of_epoch_le early⟩

/-- A token that is void stays void. -/
theorem holds_between (front : first.Precedes second) (back : second.Precedes third)
    (numbered : first.IsNumbered) (numbered' : third.IsNumbered) {rule : Rule}
    (member : rule ∈ third.rules.rules) (held : first.holds rule.token = true) :
    second.holds rule.token = true := by
  obtain ⟨whole, before, old, continues⟩ :=
    (front.trans back).continues_of_holds numbered numbered' member held
  have same : first.series = third.series := whole.series.symm
  have first_le := front.series_le
  have second_le := back.series_le
  rcases front with later | toSecond
  · omega
  rcases back with later | toThird
  · omega
  -- the rule in between has the place of both, and its token lies between theirs
  obtain ⟨middle, present, advance⟩ := Rule.exists_before toThird.rules member
  obtain ⟨origin, origin_mem, advance'⟩ := Rule.exists_before toSecond.rules present
  have place : origin.token.slot = before.token.slot := by
    rw [← advance'.slot, ← advance.slot, continues.token]
  obtain rfl : origin = before :=
    List.inj_on_of_nodup_map numbered.distinct origin_mem old place
  have early : rule.token.epoch ≤ middle.token.epoch := by
    rw [continues.token]
    exact advance'.epoch_le
  rw [(advance.continues_of_epoch_le early).token]
  exact holds_token present

end Precedes

theorem run_isNumbered {engine : Engine} (numbered : engine.IsNumbered) (events : List Event) :
    (engine.run events).IsNumbered := by
  induction events generalizing engine with
  | nil => exact numbered
  | cons event events hypothesis => exact hypothesis (react_isNumbered numbered event)

theorem run_precedes (engine : Engine) (events : List Event) :
    engine.Precedes (engine.run events) := by
  induction events generalizing engine with
  | nil => exact .inr (.refl engine)
  | cons event events hypothesis =>
      exact (engine.react_precedes event).trans (hypothesis (engine.react event))

end Engine

end TreeSelector

import Mathlib.Algebra.Order.BigOperators.Group.List
import Mathlib.Algebra.Order.Ring.Nat
import Mathlib.Logic.Function.Iterate
import TreeSelector.Proofs.Engine.Tokens

/-!
# Passes over a tree that stays the same

A pass that matches a node of an application that is not in front asks for what is in front
to be looked up again.  If the answer is the same, the next pass differs from this one in
the rules alone: some may have begun to wait and some may have stopped waiting.  Where no
time passes in between, each rule can change twice at most, and once a pass has changed no
rule all later passes are like it.
-/

namespace TreeSelector

open Reading (answer_bind after_bind)

namespace Effect

def isMismatch : Effect → Bool
  | identityMismatch _ _ => true
  | _ => false

end Effect

namespace Rule

/-- How often a rule can yet change in passes at one moment as long as it does not act: a
wait that is over may be given up, and then a wait may begin. -/
def unrest (now : Time) (rule : Rule) : Nat :=
  match rule.actionDeadline with
  | none => 1
  | some due => if due ≤ now then 2 else 0

theorem unrest_le (now : Time) (rule : Rule) : rule.unrest now ≤ 2 := by
  simp only [unrest]
  split
  · exact Nat.le_succ 1
  · split <;> simp

/-- A visit that does not act leaves a rule as it was or less restless. -/
theorem Settled.eq_or_unrest_lt {now : Time} {rule after : Rule} {finding : Finding}
    (settled : Settled now rule after finding) (quiet : ∀ node, finding ≠ .acted node) :
    after = rule ∨ after.unrest now < rule.unrest now := by
  cases settled with
  | same _ => exact .inl rfl
  | begins ready waits =>
      right
      simp only [needsActionDelay, Bool.and_eq_true, Option.any_eq_true, decide_eq_true_eq,
        Option.isNone_iff_eq_none] at waits
      obtain ⟨⟨delay, given, positive⟩, idle⟩ := waits
      have due : (rule.beginActionDelay now).actionDeadline = some (rule.actionDueFrom now) := rfl
      have later : ¬ rule.actionDueFrom now ≤ now := by
        have longer : 0 < delay.toNat := UInt64.lt_iff_toNat_lt.mp positive
        simp only [actionDueFrom, given, Option.getD_some]
        exact Nat.not_le.mpr (Nat.lt_add_of_pos_right longer)
      simp only [unrest, due, if_neg later]
      simp [actionDeadline, idle]
  | abandons ready =>
      cases started : rule.progress.delayStarted with
      | none =>
          left
          simp only [abandonActionDelay, ← started]
      | some start =>
          right
          have due := (status_eq_ready_iff.mp ready).actionDueFrom_le started
          simp [unrest, actionDeadline, abandonActionDelay, started, due]
  | dispatched node _ _ => exact absurd rfl (quiet node)

theorem sum_set_lt {values : List Nat} {place value lesser : Nat}
    (found : values[place]? = some value) (less : lesser < value) :
    (values.set place lesser).sum < values.sum := by
  induction values generalizing place with
  | nil => cases found
  | cons first values hypothesis =>
      cases place with
      | zero =>
          obtain rfl := Option.some.inj found
          simpa using less
      | succ place => simpa using hypothesis found

/-- Visits that do not act leave the rules as they were or less restless. -/
theorem Revised.eq_or_unrest_lt {now : Time} {rules afters : List Rule} {visits : List Visit}
    (revised : Revised now rules afters visits)
    (quiet : ∀ visit ∈ visits, ∀ node, visit.finding ≠ .acted node) :
    afters = rules ∨ (afters.map (unrest now)).sum < (rules.map (unrest now)).sum := by
  induction revised with
  | done _ => exact .inl rfl
  | @visit rules _ place rule after _ _ found settled _ hypothesis =>
      rw [List.forall_mem_cons] at quiet
      have later := hypothesis quiet.2
      rcases settled.eq_or_unrest_lt quiet.1 with rfl | less
      · rwa [set_eq_of_getElem? found] at later
      · have once : ((rules.set place after).map (unrest now)).sum <
            (rules.map (unrest now)).sum := by
          rw [List.map_set]
          exact sum_set_lt (by rw [List.getElem?_map, found, Option.map_some]) less
        rcases later with rfl | less'
        · exact .inr once
        · exact .inr (Nat.lt_trans less' once)

/-- At most one visit ends the pass. -/
theorem eq_of_endsPass {visits : List Visit}
    (ended : visits.Pairwise fun earlier _ => earlier.finding.endsPass = false)
    {first second : Visit} (member : first ∈ visits) (member' : second ∈ visits)
    (ends : first.finding.endsPass = true) (ends' : second.finding.endsPass = true) :
    first = second := by
  induction ended with
  | nil => cases member
  | cons apart _ hypothesis =>
      rcases List.mem_cons.mp member with rfl | later
      · rcases List.mem_cons.mp member' with rfl | later'
        · rfl
        · exact absurd ends (Bool.eq_false_iff.mp (apart second later'))
      · rcases List.mem_cons.mp member' with rfl | later'
        · exact absurd ends' (Bool.eq_false_iff.mp (apart first later))
        · exact hypothesis later later'

end Rule

namespace Engine

/-- A pass that finds a node of another application does not act. -/
theorem not_acted_of_isMismatch {engine : Engine} {request : PassRequest}
    {visits : List Visit}
    (ended : visits.Pairwise fun earlier _ => earlier.finding.endsPass = false)
    (foreign : (engine.visitEffects request visits).any Effect.isMismatch = true) :
    ∀ visit ∈ visits, ∀ node, visit.finding ≠ .acted node := by
  have found : ∃ visit ∈ visits, ∃ appId, visit.finding = .foreign appId := by
    obtain ⟨effect, member, mismatch⟩ := List.any_eq_true.mp foreign
    simp only [visitEffects] at member
    rcases List.mem_append.mp member with made | recheck
    · obtain ⟨visit, among, caused⟩ := List.mem_filterMap.mp made
      refine ⟨visit, among, ?_⟩
      simp only [Visit.effect?] at caused
      cases finding : visit.finding with
      | foreign appId => exact ⟨appId, rfl⟩
      | skipped | missed => simp [finding] at caused
      | waiting due | acted node =>
          simp only [finding, Option.some.injEq] at caused
          rw [← caused] at mismatch
          cases mismatch
    · split at recheck
      · rw [List.mem_singleton.mp recheck] at mismatch
        cases mismatch
      · cases recheck
  obtain ⟨last, present, appId, foreign⟩ := found
  intro visit member node acted
  obtain rfl := Rule.eq_of_endsPass ended present member (by simp [Finding.endsPass, foreign])
    (by simp [Finding.endsPass, acted])
  simp [foreign] at acted

/-- The count of passes does not matter to a pass. -/
theorem look_counted (engine : Engine) (count : Nat) (host : Host) (request : PassRequest)
    (begun : List Effect) (session : Session) :
    let counted := { engine with passes := count }.look host request begun
    let plain := engine.look host request begun
    (counted.answer session).1 = { (plain.answer session).1 with passes := count } ∧
      (counted.answer session).2.2 = (plain.answer session).2.2 ∧
      counted.after session = plain.after session := by
  intro counted plain
  have same : { engine with passes := count }.isWatching = engine.isWatching := rfl
  simp only [counted, plain, look, same]
  split
  · simp only [answer_bind, after_bind]
    split <;> exact ⟨rfl, rfl, rfl⟩
  · exact ⟨rfl, rfl, rfl⟩

theorem enter_counted (engine : Engine) (count : Nat) (request : PassRequest) :
    { engine with passes := count }.enter request =
      ({ (engine.enter request).1 with passes := count + 1 }, (engine.enter request).2) := by
  simp only [enter]
  split <;> rfl

end Engine

/-- A pass that is about to begin. -/
structure Recheck where
  engine : Engine
  request : PassRequest

namespace Recheck

variable (host : Host)

/-- What the pass comes to if nothing of the tree was read before. -/
def outcome (recheck : Recheck) : Engine × PassReport × List Effect :=
  recheck.engine.passed host recheck.request (.fresh defaultCapacity)

def isBroken (recheck : Recheck) : Bool :=
  ((recheck.engine.runPass host recheck.request).after (.fresh defaultCapacity)).broken

/-- Whether the pass asks for what is in front to be looked up again. -/
def asksAgain (recheck : Recheck) : Bool :=
  !recheck.isBroken host && (recheck.outcome host).2.2.any Effect.isMismatch

/-- The pass after that, if some time later the same is in front. -/
def next (lapse : Nat) (recheck : Recheck) : Recheck :=
  ⟨(recheck.outcome host).1,
    ⟨none, recheck.request.identity, .identityMismatch, recheck.request.now + lapse⟩⟩

/-- A pass that follows another one for which the same was in front. -/
structure IsRepeated (recheck : Recheck) : Prop where
  identity : recheck.engine.identity = some recheck.request.identity
  batch : recheck.request.batch = none
  trigger : recheck.request.trigger = .identityMismatch

theorem next_isRepeated (lapse : Nat) (recheck : Recheck) :
    (recheck.next host lapse).IsRepeated :=
  ⟨recheck.engine.identity_passed host recheck.request _, rfl, rfl⟩

/-- The same pass with another count of the passes before. -/
def counted (recheck : Recheck) (count : Nat) : Recheck :=
  ⟨{ recheck.engine with passes := count }, recheck.request⟩

theorem outcome_counted (recheck : Recheck) (count : Nat) :
    ((recheck.counted count).outcome host).1 =
        { (recheck.outcome host).1 with passes := count + 1 } ∧
      (recheck.counted count).asksAgain host = recheck.asksAgain host := by
  obtain ⟨engine, request⟩ := recheck
  obtain ⟨changed, effects, session⟩ := (engine.enter request).1.look_counted (count + 1) host
    request (engine.enter request).2 (.fresh defaultCapacity)
  simp only [asksAgain, isBroken, outcome, counted, Engine.passed, Engine.runPass,
    Engine.enter_counted]
  exact ⟨changed, by rw [effects, session]⟩

/-- What a pass that changes no rule leaves to the next one. -/
theorem next_of_unchanged {recheck : Recheck} (repeated : recheck.IsRepeated)
    (unchanged : (recheck.outcome host).1.rules.rules = recheck.engine.rules.rules) :
    recheck.next host 0 = recheck.counted (recheck.engine.passes + 1) := by
  obtain ⟨engine, request⟩ := recheck
  obtain ⟨identity, batch, trigger⟩ := repeated
  have begun : engine.enter request = ({ engine with passes := engine.passes + 1 }, []) := by
    simp only at identity
    simp only [Engine.enter, identity, if_true]
  have after : (outcome host ⟨engine, request⟩).1 =
      { engine with passes := engine.passes + 1 } := by
    have shape := (engine.enter request).1.look_rules host request (engine.enter request).2
      (.fresh defaultCapacity)
    simp only [outcome, Engine.passed, Engine.runPass] at unchanged ⊢
    rw [shape, unchanged, begun]
  have again : (⟨none, request.identity, .identityMismatch, request.now + 0⟩ : PassRequest) =
      request := by
    simp only at batch trigger
    rw [← batch, ← trigger]
    rfl
  simp only [next, counted, after, again]

/-- Once a pass changes no rule, all later ones are like it. -/
theorem iterate_next_of_unchanged {recheck : Recheck} (repeated : recheck.IsRepeated)
    (unchanged : (recheck.outcome host).1.rules.rules = recheck.engine.rules.rules)
    (count : Nat) :
    (next host 0)^[count] recheck = recheck.counted (recheck.engine.passes + count) := by
  induction count with
  | zero => rfl
  | succ count hypothesis =>
      rw [Function.iterate_succ_apply', hypothesis]
      have step := next_of_unchanged host repeated unchanged
      have changed := (recheck.outcome_counted host (recheck.engine.passes + count)).1
      simp only [next, counted, Recheck.mk.injEq] at step ⊢
      simp only [counted] at changed
      rw [changed, step.1]
      exact ⟨rfl, step.2⟩

/-- A pass that asks to look again and follows such a pass leaves the rules as they were or
less restless. -/
theorem unchanged_or_unrest_lt {recheck : Recheck} (repeated : recheck.IsRepeated)
    (asks : recheck.asksAgain host = true) :
    (recheck.outcome host).1.rules.rules = recheck.engine.rules.rules ∨
      ((recheck.outcome host).1.rules.rules.map (Rule.unrest recheck.request.now)).sum <
        (recheck.engine.rules.rules.map (Rule.unrest recheck.request.now)).sum := by
  obtain ⟨engine, request⟩ := recheck
  have begun : engine.enter request = ({ engine with passes := engine.passes + 1 }, []) := by
    have identity := repeated.identity
    simp only at identity
    simp only [Engine.enter, identity, if_true]
  obtain ⟨visits, revised, _, _, effects, ended⟩ :=
    (engine.enter request).1.look_revises host request (engine.enter request).2
      (.fresh defaultCapacity)
  have foreign : ((engine.enter request).1.visitEffects request visits).any Effect.isMismatch =
      true := by
    have mismatch : ((engine.enter request).2 ++
        (engine.enter request).1.visitEffects request visits).any Effect.isMismatch = true := by
      rw [← effects]
      exact (Bool.and_eq_true_iff.mp asks).2
    simpa [begun] using mismatch
  have outcome := revised.eq_or_unrest_lt (Engine.not_acted_of_isMismatch ended foreign)
  simpa only [Recheck.outcome, Engine.passed, Engine.runPass, begun] using outcome

/-- A sequence cannot decrease more often than its first value says. -/
theorem exists_not_decreasing (values : Nat → Nat) :
    ∃ index ≤ values 0, ¬ values (index + 1) < values index := by
  by_contra always
  simp only [not_exists, not_and, not_not] at always
  have bound : ∀ index ≤ values 0 + 1, values index + index ≤ values 0 := by
    intro index small
    induction index with
    | zero => simp
    | succ index hypothesis =>
        have earlier := hypothesis (Nat.le_of_succ_le small)
        have less := always index (Nat.le_of_succ_le_succ small)
        omega
  have last := bound (values 0 + 1) (Nat.le_refl _)
  omega

theorem now_iterate_next (first : Recheck) (count : Nat) :
    ((next host 0)^[count] first).request.now = first.request.now := by
  induction count with
  | zero => rfl
  | succ count hypothesis =>
      rw [Function.iterate_succ_apply']
      exact hypothesis

theorem length_next (lapse : Nat) (recheck : Recheck) :
    (recheck.next host lapse).engine.rules.rules.length = recheck.engine.rules.rules.length :=
  ((recheck.engine.enter_advances recheck.request).trans
    (recheck.engine.passed_advances host recheck.request _)).rules.length_eq.symm

/-- Where no time passes, the first passes tell whether the passes ever stop asking to look
again. -/
theorem asksAgain_forever_iff (first : Recheck) :
    (∀ count, ((next host 0)^[count] first).asksAgain host = true) ↔
      ∀ count ≤ 2 * first.engine.rules.rules.length + 1,
        ((next host 0)^[count] first).asksAgain host = true := by
  constructor
  · exact fun always count _ => always count
  intro early
  have repeated : ∀ count, ((next host 0)^[count + 1] first).IsRepeated := by
    intro count
    rw [Function.iterate_succ_apply']
    exact next_isRepeated host 0 _
  obtain ⟨index, small, stays⟩ := exists_not_decreasing fun index =>
    (((next host 0)^[index + 1] first).engine.rules.rules.map
      (Rule.unrest first.request.now)).sum
  have total : (((next host 0)^[0 + 1] first).engine.rules.rules.map
      (Rule.unrest first.request.now)).sum ≤ 2 * first.engine.rules.rules.length := by
    have each := List.sum_le_card_nsmul (((next host 0)^[0 + 1] first).engine.rules.rules.map
      (Rule.unrest first.request.now)) 2 (by simpa using fun rule _ => Rule.unrest_le _ rule)
    rw [List.length_map, Function.iterate_one, length_next, nsmul_eq_mul, Nat.cast_id,
      Nat.mul_comm] at each
    exact each
  have asks := early (index + 1) (Nat.succ_le_succ (Nat.le_trans small total))
  have unchanged : (((next host 0)^[index + 1] first).outcome host).1.rules.rules =
      ((next host 0)^[index + 1] first).engine.rules.rules := by
    rcases unchanged_or_unrest_lt host (repeated index) asks with same | less
    · exact same
    · rw [now_iterate_next] at less
      simp only [Function.iterate_succ_apply' _ (index + 1)] at stays
      exact absurd less stays
  intro count
  rcases Nat.lt_or_ge count (index + 1) with before | after
  · exact early count (Nat.le_trans (Nat.le_of_lt before)
      (Nat.succ_le_succ (Nat.le_trans small total)))
  · obtain ⟨more, rfl⟩ := Nat.exists_eq_add_of_le' after
    rw [Function.iterate_add_apply, iterate_next_of_unchanged host (repeated index) unchanged,
      (outcome_counted host _ _).2]
    exact asks

end Recheck

end TreeSelector

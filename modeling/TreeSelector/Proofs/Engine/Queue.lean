import Mathlib.Data.List.Pairwise
import TreeSelector.Proofs.Engine.Applicability

/-!
# The order of rules

An engine has the rules of the configuration in force that can be read, the ones of lower
order first and those of equal order as they were configured.  Whatever happens to the
engine, nothing but another configuration changes which rules these are and how they are
ordered.
-/

namespace TreeSelector

section Sorting

variable {α : Type} {le : α → α → Bool}
  (trans : ∀ first second third, le first second = true → le second third = true →
    le first third = true)
  (total : ∀ first second, (le first second || le second first) = true)
include trans total

/-- Sorting leaves items that it does not tell apart in the order in which they were. -/
theorem sublist_of_sublist_mergeSort {items : List α} {first second : α}
    (inside : [first, second].Sublist (items.mergeSort le)) (tied : le second first = true) :
    [first, second].Sublist items := by
  have forward : le first second = true :=
    List.pairwise_iff_forall_sublist.mp (List.pairwise_mergeSort trans total items) inside
  have reflexive : le first first = true := by simpa using total first first
  let same : α → Bool := fun item => le first item && le item first
  have level : (items.filter same).Pairwise fun item item' => le item item' = true := by
    refine List.pairwise_of_forall_mem_list fun item member item' member' => ?_
    have back := (Bool.and_eq_true_iff.mp (List.mem_filter.mp member).2).2
    have onward := (Bool.and_eq_true_iff.mp (List.mem_filter.mp member').2).1
    exact trans item first item' back onward
  have kept : (items.filter same).Sublist ((items.mergeSort le).filter same) := by
    have among := (List.sublist_mergeSort trans total level List.filter_sublist).filter same
    rwa [List.filter_filter, show (fun item => same item && same item) = same by simp] at among
  have whole : items.filter same = (items.mergeSort le).filter same :=
    kept.eq_of_length ((List.mergeSort_perm items le).filter same).length_eq.symm
  have pair : [first, second].filter same = [first, second] :=
    List.filter_eq_self.mpr (by simp [same, forward, tied, reflexive])
  have chosen := inside.filter same
  rw [pair, ← whole] at chosen
  exact chosen.trans List.filter_sublist

end Sorting

namespace EngineConfig

/-- The rules of a configuration that can be read, each with its position. -/
def readable (config : EngineConfig) : List (RuleDefinition × Nat) :=
  config.rules.zipIdx.filterMap fun (rule, position) =>
    (RuleDefinition.compile rule config).toOption.map (·, position)

/-- Which of two rules is tried first: the one of lower order, or the one that was
configured first. -/
def ComesBefore (first second : RuleDefinition × Nat) : Prop :=
  first.1.config.order < second.1.config.order ∨
    first.1.config.order = second.1.config.order ∧ first.2 < second.2

/-- The rules of a configuration that can be read, in the order in which they are tried. -/
structure IsQueue (config : EngineConfig) (queue : List (RuleDefinition × Nat)) : Prop where
  readable : queue.Perm config.readable
  ordered : queue.Pairwise ComesBefore

theorem readable_ascending (config : EngineConfig) :
    config.readable.Pairwise fun first second => first.2 < second.2 := by
  have positions : config.rules.zipIdx.Pairwise fun first second => first.2 < second.2 := by
    rw [← List.pairwise_map, List.zipIdx_map_snd]
    exact List.pairwise_lt_range'
  refine positions.filterMap _ ?_
  intro first second before found make found' make'
  obtain ⟨_, _, rfl⟩ := Option.map_eq_some_iff.mp make
  obtain ⟨_, _, rfl⟩ := Option.map_eq_some_iff.mp make'
  exact before

end EngineConfig

namespace RuleSet

-- without this every equation about a compiled rule set would read its selectors
attribute [local irreducible] RuleDefinition.compile

theorem definitions_compileAll (config : EngineConfig) (series : Nat) (now : Time)
    (slot position : Nat) (configs : List RuleConfig) :
    (compileAll config series now slot configs).1.map (·.definition) =
      ((configs.zipIdx position).filterMap fun (rule, position) =>
        (RuleDefinition.compile rule config).toOption.map (·, position)).map (·.1) := by
  induction configs generalizing slot position with
  | nil => rfl
  | cons first configs hypothesis =>
      rw [compileAll_cons, List.zipIdx_cons, List.filterMap_cons]
      dsimp only
      cases RuleDefinition.compile first config with
      | error error => exact hypothesis slot (position + 1)
      | ok definition =>
          exact congrArg (definition :: ·) (hypothesis (slot + 1) (position + 1))

/-- A rule set has the rules that can be read, in the order in which they are tried. -/
theorem exists_queue (config : EngineConfig) (series : Nat) (now : Time) :
    ∃ queue, config.IsQueue queue ∧
      (compile config series now).rules.map (·.definition) = queue.map (·.1) := by
  let le : RuleDefinition × Nat → RuleDefinition × Nat → Bool := fun first second =>
    first.1.config.order ≤ second.1.config.order
  have trans : ∀ first second third, le first second = true → le second third = true →
      le first third = true := by
    intro first second third front back
    exact decide_eq_true (Int32.le_trans (of_decide_eq_true front) (of_decide_eq_true back))
  have total : ∀ first second, (le first second || le second first) = true := by
    intro first second
    simpa [le] using Int32.le_total first.1.config.order second.1.config.order
  refine ⟨config.readable.mergeSort le, ⟨List.mergeSort_perm _ _, ?_⟩, ?_⟩
  · refine List.pairwise_iff_forall_sublist.mpr fun {first second} inside => ?_
    have sorted : le first second = true :=
      List.pairwise_iff_forall_sublist.mp (List.pairwise_mergeSort trans total _) inside
    by_cases tied : le second first = true
    · have configured := List.pairwise_iff_forall_sublist.mp config.readable_ascending
        (sublist_of_sublist_mergeSort trans total inside tied)
      exact .inr ⟨Int32.le_antisymm (of_decide_eq_true sorted) (of_decide_eq_true tied),
        configured⟩
    · left
      have apart : ¬ second.1.config.order ≤ first.1.config.order := by simpa [le] using tied
      exact Int32.not_le.mp apart
  · let level : RuleDefinition → RuleDefinition → Bool := fun first second =>
      first.config.order ≤ second.config.order
    have definitions := definitions_compileAll config series now 0 0 config.rules
    have sorted : (config.readable.mergeSort le).map (·.1) =
        (config.readable.map (·.1)).mergeSort level :=
      List.map_mergeSort fun _ _ _ _ => rfl
    calc (compile config series now).rules.map (·.definition)
        = ((compileAll config series now 0 config.rules).1.map (·.definition)).mergeSort level :=
          List.map_mergeSort fun _ _ _ _ => rfl
      _ = (config.readable.map (·.1)).mergeSort level := by rw [definitions]; rfl
      _ = (config.readable.mergeSort le).map (·.1) := sorted.symm

end RuleSet

/-- The configuration in force after some events. -/
def EngineConfig.after (config : EngineConfig) (events : List Event) : EngineConfig :=
  events.foldl (fun config event =>
    match event with
    | .configure other _ => other
    | _ => config) config

namespace Engine

/-- An engine has the rules of a configuration, in the order in which they are tried. -/
structure Serves (engine : Engine) (config : EngineConfig) : Prop where
  rules : ∃ queue, config.IsQueue queue ∧
    engine.rules.rules.map (·.definition) = queue.map (·.1)
  enableMatch : engine.rules.enableMatch = config.enableMatch

variable {engine newer : Engine} {config : EngineConfig}

theorem compile_serves (now : Time) (rules : engine.rules = .compile config engine.series now) :
    engine.Serves config := by
  constructor
  · rw [rules]
    exact RuleSet.exists_queue config engine.series now
  · rw [rules]
    rfl

theorem Serves.of_advances (serves : engine.Serves config) (advances : engine.Advances newer)
    (enableMatch : newer.rules.enableMatch = engine.rules.enableMatch) :
    newer.Serves config where
  rules := by
    rw [advances.definitions_eq]
    exact serves.rules
  enableMatch := enableMatch.trans serves.enableMatch

theorem enableMatch_enter (engine : Engine) (request : PassRequest) :
    (engine.enter request).1.rules.enableMatch = engine.rules.enableMatch := by
  simp only [enter]
  split <;> rfl

theorem enableMatch_passed (engine : Engine) (host : Host) (request : PassRequest)
    (session : Session) :
    (engine.passed host request session).1.rules.enableMatch = engine.rules.enableMatch := by
  rw [passed_rules]
  exact engine.enableMatch_enter request

theorem enableMatch_react (engine : Engine) {event : Event}
    (keeps : ∀ config now, event ≠ .configure config now) :
    (engine.react event).rules.enableMatch = engine.rules.enableMatch := by
  cases event with
  | pass host request session => exact engine.enableMatch_passed host request session
  | report key generation succeeded =>
      simp only [react, actionFinished]
      split <;> rfl
  | reset key now => rfl
  | configure config now => exact absurd rfl (keeps config now)

theorem Serves.react (serves : engine.Serves config) (event : Event) :
    (engine.react event).Serves (config.after [event]) := by
  cases event with
  | configure other now => exact compile_serves now rfl
  | _ =>
      exact serves.of_advances (engine.react_advances (by simp))
        (engine.enableMatch_react (by simp))

/-- After any events an engine has the rules of the configuration in force. -/
theorem Serves.run (serves : engine.Serves config) (events : List Event) :
    (engine.run events).Serves (config.after events) := by
  induction events generalizing engine config with
  | nil => exact serves
  | cons event events hypothesis => exact hypothesis (serves.react event)

theorem start_serves (config : EngineConfig) (timing : Timing) (now : Time) :
    (start config timing now).Serves config :=
  compile_serves now rfl

end Engine

end TreeSelector

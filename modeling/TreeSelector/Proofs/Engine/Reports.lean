import Mathlib.Data.List.Count
import TreeSelector.Proofs.Engine.Dispatches

/-!
# Reports find their rules by key

A journal follows an engine through passes and reports, and keeps for every action the place
of the rule that dispatched it.  A request names its rule by a key only, and several rules may
have the same key: its report goes to the first of them.  So a report settles the action of the
rule that dispatched it exactly if that is the first rule with its key and no report for the
key has come since that rule dispatched last.
-/

namespace TreeSelector

/-- An action that the rule at some place dispatched. -/
structure Errand where
  request : ActionRequest
  place : Nat
  deriving DecidableEq

inductive Deed where
  | dispatched (errand : Errand)
  | reported (errand : Errand)
  deriving DecidableEq

/-- An engine with what happened to its actions, the latest first. -/
structure Journal where
  engine : Engine
  deeds : List Deed

namespace Engine

def keys (engine : Engine) : List String := engine.rules.rules.map Rule.key

/-- When the actions were dispatched that have not been reported, rule by rule. -/
def marks (engine : Engine) : List (Option Time) :=
  engine.rules.rules.map (·.progress.acting)

/-- A report takes the mark off the rule at the place of the errand, counts the action if it
succeeded, and leaves everything else as it was. -/
def Settles (engine : Engine) (errand : Errand) (succeeded : Bool) : Prop :=
  ∃ rule time, engine.rules.rules[errand.place]? = some rule ∧
    rule.progress.acting = some time ∧
    let settled : Rule := { rule with progress := { rule.progress with
      acting := none
      actionCount := rule.progress.actionCount + succeeded.toNat
      lastTrigger := if succeeded then some time else rule.progress.lastTrigger } }
    engine.actionFinished errand.request.rule errand.request.generation succeeded =
      { engine with rules := { engine.rules with
          rules := engine.rules.rules.set errand.place settled } }

end Engine

theorem idxOf?_eq_some_iff_of_getElem? {keys : List String} {key : String} {place : Nat}
    (here : keys[place]? = some key) :
    keys.idxOf? key = some place ↔ ∀ earlier < place, keys[earlier]? ≠ some key := by
  obtain ⟨inside, found⟩ := List.getElem?_eq_some_iff.mp here
  rw [List.idxOf?_eq_some_iff]
  constructor
  · rintro ⟨_, _, others⟩ earlier before same
    obtain ⟨_, found'⟩ := List.getElem?_eq_some_iff.mp same
    exact others earlier before found'
  · intro others
    refine ⟨inside, found, fun earlier before same => others earlier before ?_⟩
    rw [List.getElem?_eq_getElem (Nat.lt_trans before inside), same]

namespace RuleSet

/-- A change to the first rule with a key changes what is at its place. -/
theorem modifyFirst_eq_set {key : String} {rules : List Rule} {place : Nat}
    (change : Rule → Rule) (first : (rules.map Rule.key).idxOf? key = some place) :
    ∃ rule, rules[place]? = some rule ∧
      modifyFirst key change rules = rules.set place (change rule) := by
  induction rules generalizing place with
  | nil => cases first
  | cons head rules hypothesis =>
      rw [List.map_cons, List.idxOf?_cons] at first
      rw [modifyFirst]
      by_cases here : head.key = key
      · rw [if_pos (beq_iff_eq.mpr here)] at first
        obtain rfl := Option.some.inj first
        exact ⟨head, rfl, if_pos here⟩
      · rw [if_neg (by simpa using here)] at first
        obtain ⟨place, later, rfl⟩ := Option.map_eq_some_iff.mp first
        obtain ⟨rule, found, changed⟩ := hypothesis later
        refine ⟨rule, found, ?_⟩
        rw [if_neg here, List.set_cons_succ, changed]

end RuleSet

namespace Errand

/-- Whether the rule at the place of an errand has dispatched its action again, or for the
first time, since the last report with the key and the generation of the errand. -/
def awaits (errand : Errand) : List Deed → Bool
  | [] => false
  | .dispatched other :: deeds => other.place = errand.place || errand.awaits deeds
  | .reported other :: deeds =>
      !(other.request.rule = errand.request.rule &&
        other.request.generation = errand.request.generation) && errand.awaits deeds

/-- Whether an errand is one of the rule at some place in some generation. -/
def isOf (place generation : Nat) (errand : Errand) : Bool :=
  errand.place = place && errand.request.generation = generation

end Errand

namespace Deed

/-- The actions that were dispatched and have not been reported. -/
def outstanding : List Deed → List Errand
  | [] => []
  | dispatched errand :: deeds => errand :: outstanding deeds
  | reported errand :: deeds => (outstanding deeds).erase errand

theorem mem_of_mem_outstanding {errand : Errand} {deeds : List Deed}
    (waiting : errand ∈ outstanding deeds) : dispatched errand ∈ deeds := by
  induction deeds with
  | nil => cases waiting
  | cons deed deeds hypothesis =>
      cases deed with
      | dispatched other =>
          rcases List.mem_cons.mp waiting with rfl | earlier
          · exact List.mem_cons_self
          · exact List.mem_cons_of_mem _ (hypothesis earlier)
      | reported other =>
          exact List.mem_cons_of_mem _ (hypothesis (List.mem_of_mem_erase waiting))

end Deed

namespace Journal

def start (config : EngineConfig) (timing : Timing) (now : Time) : Journal :=
  ⟨.start config timing now, []⟩

def outstanding (journal : Journal) : List Errand := Deed.outstanding journal.deeds

/-- The first place whose rule acts after a pass and did not act as the pass began. -/
def actor : (before after : List (Option Time)) → Nat
  | none :: _, some _ :: _ => 0
  | _ :: before, _ :: after => actor before after + 1
  | _, _ => 0

def afterPass (journal : Journal) (host : Host) (request : PassRequest) (session : Session) :
    Journal :=
  let outcome := journal.engine.passed host request session
  let place := actor (journal.engine.enter request).1.marks outcome.1.marks
  ⟨outcome.1, (requestsOf outcome.2.2).map (.dispatched ⟨·, place⟩) ++ journal.deeds⟩

def afterReport (journal : Journal) (errand : Errand) (succeeded : Bool) : Journal :=
  ⟨journal.engine.actionFinished errand.request.rule errand.request.generation succeeded,
    .reported errand :: journal.deeds⟩

/-- What may happen next: any pass, and the report of any action that was not reported. -/
inductive Step (journal : Journal) : Journal → Prop where
  | pass (host : Host) (request : PassRequest) (session : Session) :
      Step journal (journal.afterPass host request session)
  | report {errand : Errand} (succeeded : Bool) :
      errand ∈ journal.outstanding → Step journal (journal.afterReport errand succeeded)

/-- A journal reached from a new engine. -/
def Reached (config : EngineConfig) (timing : Timing) (now : Time) (journal : Journal) :
    Prop :=
  Relation.ReflTransGen Step (start config timing now) journal

end Journal

namespace Rule

/-- What a pass makes of some rules, as far as their actions go, with the requests that it
makes: it dispatches nothing, or the action of one rule that was ready. -/
inductive Turn (now : Time) (generation : Nat) (rules : List Rule) :
    List Rule → List ActionRequest → Prop where
  | keeps {kept : List Rule} :
      List.Forall₂ KeepsActions rules kept → Turn now generation rules kept []
  | dispatches {kept : List Rule} {rule : Rule} (place : Nat) (node : NodeId) :
      List.Forall₂ KeepsActions rules kept → kept[place]? = some rule →
      rule.progress.acting = none →
      Turn now generation rules (kept.set place (rule.dispatch now))
        [⟨rule.key, node, rule.config.action, generation⟩]

theorem Turn.cons {now : Time} {generation : Nat} {first after : Rule} {rules afters : List Rule}
    {requests : List ActionRequest} (keeps : first.KeepsActions after)
    (turn : Turn now generation rules afters requests) :
    Turn now generation (first :: rules) (after :: afters) requests := by
  cases turn with
  | keeps keep => exact .keeps (.cons keeps keep)
  | dispatches place node keep found idle =>
      exact .dispatches (place + 1) node (.cons keeps keep) found idle

section Passes

variable {now : Time} {rules afters : List Rule} {visits : List Visit}

theorem Visited.eq_of_nil (visited : Visited now rules afters []) : afters = rules := by
  generalize none : ([] : List Visit) = visits at visited
  induction visited with
  | nil => rfl
  | skip _ hypothesis => rw [hypothesis none]
  | visit => cases none

theorem Visited.turn (visited : Visited now rules afters visits)
    (ended : visits.Pairwise fun earlier _ => earlier.finding.endsPass = false)
    (generation : Nat) : Turn now generation rules afters (requestsAt generation visits) := by
  induction visited with
  | nil => exact .keeps .nil
  | @skip first _ _ _ _ hypothesis => exact (hypothesis ended).cons (.refl first)
  | @visit first after finding rules _ visits settled visited hypothesis =>
      rw [List.pairwise_cons] at ended
      rw [requestsAt_cons]
      rcases settled.keeps_or_dispatches with ⟨keeps, quiet⟩ | ⟨ready, rfl, node, rfl⟩
      · have unasked : request? generation ⟨first, finding⟩ = none := by
          cases finding with
          | acted node => exact absurd rfl (quiet node)
          | _ => rfl
        rw [unasked]
        exact (hypothesis ended.2).cons keeps
      · -- no visit follows one that acts
        have last : visits = [] := List.eq_nil_iff_forall_not_mem.mpr fun later member =>
          absurd (ended.1 later member) (by simp [Finding.endsPass])
        subst last
        rw [visited.eq_of_nil]
        exact .dispatches 0 node (forall₂_keepsActions_refl (first :: rules)) rfl
          (acting_eq_none_of_ready ready)

end Passes

theorem keys_eq_of_keepsActions {rules kept : List Rule}
    (keep : List.Forall₂ KeepsActions rules kept) : kept.map key = rules.map key := by
  induction keep with
  | nil => rfl
  | cons keeps _ hypothesis => rw [List.map_cons, List.map_cons, keeps.key_eq, hypothesis]

theorem marks_eq_of_keepsActions {rules kept : List Rule}
    (keep : List.Forall₂ KeepsActions rules kept) :
    kept.map (·.progress.acting) = rules.map (·.progress.acting) := by
  induction keep with
  | nil => rfl
  | cons keeps _ hypothesis => rw [List.map_cons, List.map_cons, keeps.acting, hypothesis]

end Rule

namespace Engine

theorem actionFinished_of_first (engine : Engine) {key : String} {generation place : Nat}
    (current : generation = engine.generation) (first : engine.keys.idxOf? key = some place)
    (succeeded : Bool) :
    ∃ rule, engine.rules.rules[place]? = some rule ∧
      engine.actionFinished key generation succeeded =
        { engine with rules := { engine.rules with
            rules := engine.rules.rules.set place (rule.actionFinished succeeded).2 } } := by
  obtain ⟨rule, found, changed⟩ :=
    RuleSet.modifyFirst_eq_set (fun rule => (rule.actionFinished succeeded).2) first
  refine ⟨rule, found, ?_⟩
  rw [actionFinished, if_pos current, RuleSet.modify, changed]

/-- A report settles the action of a rule exactly if the rule is acting and is the first one
with its key. -/
theorem settles_iff {engine : Engine} {errand : Errand}
    (current : errand.request.generation = engine.generation)
    (named : engine.keys[errand.place]? = some errand.request.rule) (succeeded : Bool) :
    engine.Settles errand succeeded ↔
      engine.keys.idxOf? errand.request.rule = some errand.place ∧
        engine.marks[errand.place]?.join ≠ none := by
  obtain ⟨place, first⟩ := Option.isSome_iff_exists.mp
    (List.isSome_idxOf?.mpr (List.mem_of_getElem? named))
  obtain ⟨rule, found, reported⟩ := engine.actionFinished_of_first current first succeeded
  constructor
  · rintro ⟨actor, time, here, acting, settled⟩
    have marked : engine.marks[errand.place]?.join ≠ none := by
      simp [marks, here, acting]
    refine ⟨?_, marked⟩
    by_contra elsewhere
    have apart : place ≠ errand.place := by
      rintro rfl
      exact elsewhere first
    -- the rule that dispatched the action would be left acting
    have kept := congrArg (·.marks[errand.place]?) (reported.symm.trans settled)
    simp only [marks, List.getElem?_map, List.getElem?_set_ne apart, List.getElem?_set_self',
      here] at kept
    simp [acting] at kept
  · rintro ⟨here, marked⟩
    obtain rfl := Option.some.inj (first.symm.trans here)
    obtain ⟨time, acting⟩ : ∃ time, rule.progress.acting = some time := by
      simpa [marks, found, Option.ne_none_iff_exists'] using marked
    refine ⟨rule, time, found, acting, ?_⟩
    rw [reported, Rule.actionFinished]
    simp only [acting]
    cases succeeded <;> rfl

/-- A pass takes a turn over the rules as it finds them when it has begun. -/
theorem IsFresh.passed_turn {engine : Engine} (fresh : engine.IsFresh) (host : Host)
    (request : PassRequest) (session : Session) :
    let begun := (engine.enter request).1
    let outcome := engine.passed host request session
    Rule.Turn request.now begun.generation begun.rules.rules outcome.1.rules.rules
      (requestsOf outcome.2.2) := by
  intro begun outcome
  obtain ⟨visits, visited, _, _, effects, ended⟩ :=
    (fresh.enter request).look_visits host request (engine.enter request).2 session
  have requests : requestsOf outcome.2.2 = Rule.requestsAt begun.generation visits := by
    have emitted := congrArg requestsOf effects
    rwa [requestsOf_append, requestsOf_enter, List.nil_append, requestsOf_visitEffects] at emitted
  rw [requests]
  exact visited.turn ended begun.generation

end Engine

namespace Journal

theorem actor_set {marks : List (Option Time)} {place : Nat} (idle : marks[place]? = some none)
    (now : Time) : actor marks (marks.set place (some now)) = place := by
  induction marks generalizing place with
  | nil => cases idle
  | cons mark marks hypothesis =>
      cases place with
      | zero =>
          obtain rfl := Option.some.inj idle
          rfl
      | succ place => cases mark <;> simp [actor, hypothesis idle]

theorem join_set_none (marks : List (Option Time)) (place : Nat) :
    (marks.set place none)[place]?.join = none := by
  rw [List.getElem?_set_self']
  cases marks[place]? <;> rfl

/-- The actions of a generation that are not reported, as far as they can be told from the
keys and the marks of the rules. -/
structure IsSound (generation : Nat) (keys : List String) (marks : List (Option Time))
    (deeds : List Deed) : Prop where
  dated : ∀ errand, .dispatched errand ∈ deeds → errand.request.generation ≤ generation
  named : ∀ errand, .dispatched errand ∈ deeds → keys[errand.place]? = some errand.request.rule
  marked : ∀ errand, .dispatched errand ∈ deeds → errand.request.generation = generation →
    keys.idxOf? errand.request.rule = some errand.place →
      (marks[errand.place]?.join ≠ none ↔ errand.awaits deeds = true)
  single : ∀ place key, keys[place]? = some key →
    (∀ other, keys[other]? = some key → other = place) →
      (Deed.outstanding deeds).countP (·.isOf place generation) ≤
        marks[place]?.join.toList.length

namespace IsSound

variable {generation : Nat} {keys : List String} {marks : List (Option Time)}
  {deeds : List Deed}

/-- In a new generation nothing was dispatched yet. -/
theorem later (sound : IsSound generation keys marks deeds) (marks' : List (Option Time)) :
    IsSound (generation + 1) keys marks' deeds where
  dated := fun errand made => Nat.le_succ_of_le (sound.dated errand made)
  named := sound.named
  marked := by
    intro errand made current
    have older := sound.dated errand made
    omega
  single := by
    intro place key _ _
    have none : (Deed.outstanding deeds).countP (·.isOf place (generation + 1)) = 0 := by
      rw [List.countP_eq_zero]
      intro errand waiting current
      have older := sound.dated errand (Deed.mem_of_mem_outstanding waiting)
      simp only [Errand.isOf, Bool.and_eq_true, decide_eq_true_eq] at current
      omega
    rw [none]
    exact Nat.zero_le _

theorem dispatch (sound : IsSound generation keys marks deeds) {place : Nat} {key : String}
    (named : keys[place]? = some key) (idle : marks[place]? = some none) (node : NodeId)
    (action : RuleAction) (now : Time) :
    IsSound generation keys (marks.set place (some now))
      (.dispatched ⟨⟨key, node, action, generation⟩, place⟩ :: deeds) := by
  have inside : place < marks.length := (List.getElem?_eq_some_iff.mp idle).1
  constructor
  · intro errand made
    rcases List.mem_cons.mp made with same | earlier
    · obtain rfl := Deed.dispatched.inj same
      exact Nat.le_refl _
    · exact sound.dated errand earlier
  · intro errand made
    rcases List.mem_cons.mp made with same | earlier
    · obtain rfl := Deed.dispatched.inj same
      exact named
    · exact sound.named errand earlier
  · intro errand made current first
    rw [Errand.awaits]
    by_cases here : place = errand.place
    · simp [← here, inside]
    · have earlier : .dispatched errand ∈ deeds := by
        rcases List.mem_cons.mp made with same | earlier
        · obtain rfl := Deed.dispatched.inj same
          exact absurd rfl here
        · exact earlier
      rw [List.getElem?_set_ne here, sound.marked errand earlier current first]
      simp [here]
  · intro other key' named' only
    have before := sound.single other key' named' only
    rw [Deed.outstanding, List.countP_cons]
    by_cases here : place = other
    · subst here
      have none : (Deed.outstanding deeds).countP (·.isOf place generation) = 0 := by
        simpa only [idle, Option.join_some, Option.toList_none, List.length_nil,
          Nat.le_zero] using before
      rw [none]
      simp [Errand.isOf, inside]
    · rw [List.getElem?_set_ne here]
      simpa [Errand.isOf, here] using before

theorem dispatched_of_mem_report {errand other : Errand}
    (member : .dispatched other ∈ Deed.reported errand :: deeds) : .dispatched other ∈ deeds :=
  (List.mem_cons.mp member).resolve_left nofun

/-- A report that counts takes the mark off the first rule with its key. -/
theorem report (sound : IsSound generation keys marks deeds) {errand : Errand}
    (waiting : errand ∈ Deed.outstanding deeds) (current : errand.request.generation = generation)
    {place : Nat} (first : keys.idxOf? errand.request.rule = some place) :
    IsSound generation keys (marks.set place none) (.reported errand :: deeds) := by
  have made := Deed.mem_of_mem_outstanding waiting
  obtain ⟨inside, here, _⟩ := List.idxOf?_eq_some_iff.mp first
  have named : keys[place]? = some errand.request.rule := by
    simpa [List.getElem?_eq_getElem inside] using here
  constructor
  · exact fun other member => sound.dated other (dispatched_of_mem_report member)
  · exact fun other member => sound.named other (dispatched_of_mem_report member)
  · intro other member dated first'
    have earlier := dispatched_of_mem_report member
    rw [Errand.awaits]
    by_cases same : errand.request.rule = other.request.rule
    · rw [same, first'] at first
      obtain rfl := Option.some.inj first
      simp [same, current, dated, join_set_none]
    · have apart : place ≠ other.place := by
        rintro rfl
        exact same (Option.some.inj (named.symm.trans (sound.named other earlier)))
      rw [List.getElem?_set_ne apart, sound.marked other earlier dated first']
      simp [same]
  · intro other key named' only
    have before := sound.single other key named' only
    rw [Deed.outstanding]
    by_cases same : errand.request.rule = key
    · subst same
      obtain rfl := only place named
      have own := only errand.place (sound.named errand made)
      have mine : errand.isOf place generation = true := by simp [Errand.isOf, own, current]
      have few : marks[place]?.join.toList.length ≤ 1 := by
        cases marks[place]?.join <;> simp
      rw [List.countP_erase, if_pos ⟨waiting, mine⟩]
      omega
    · have apart : place ≠ other := by
        rintro rfl
        exact same (Option.some.inj (named.symm.trans named'))
      rw [List.getElem?_set_ne apart]
      exact Nat.le_trans List.erase_sublist.countP_le before

/-- A report from another generation changes nothing. -/
theorem belated (sound : IsSound generation keys marks deeds) {errand : Errand}
    (other : errand.request.generation ≠ generation) :
    IsSound generation keys marks (.reported errand :: deeds) := by
  constructor
  · exact fun other member => sound.dated other (dispatched_of_mem_report member)
  · exact fun other member => sound.named other (dispatched_of_mem_report member)
  · intro dispatched member dated first
    have earlier := dispatched_of_mem_report member
    rw [Errand.awaits, sound.marked dispatched earlier dated first, dated]
    simp [other]
  · intro place key named only
    exact Nat.le_trans List.erase_sublist.countP_le (sound.single place key named only)

/-- A turn over the rules adds what it dispatched. -/
theorem turn {rules afters : List Rule} {requests : List ActionRequest} {now : Time}
    (sound : IsSound generation (rules.map Rule.key) (rules.map (·.progress.acting)) deeds)
    (turn : Rule.Turn now generation rules afters requests) :
    let place := actor (rules.map (·.progress.acting)) (afters.map (·.progress.acting))
    IsSound generation (afters.map Rule.key) (afters.map (·.progress.acting))
      (requests.map (.dispatched ⟨·, place⟩) ++ deeds) := by
  cases turn with
  | keeps keep =>
      rw [Rule.keys_eq_of_keepsActions keep, Rule.marks_eq_of_keepsActions keep]
      exact sound
  | @dispatches kept rule place node keep found idle =>
      rw [← Rule.keys_eq_of_keepsActions keep, ← Rule.marks_eq_of_keepsActions keep] at sound
      have named : (kept.map Rule.key)[place]? = some rule.key := by
        rw [List.getElem?_map, found, Option.map_some]
      have unmarked : (kept.map (·.progress.acting))[place]? = some none := by
        rw [List.getElem?_map, found, Option.map_some, idle]
      have keys : (kept.set place (rule.dispatch now)).map Rule.key = kept.map Rule.key := by
        rw [List.map_set]
        exact set_eq_of_getElem? named
      rw [keys, List.map_set, ← Rule.marks_eq_of_keepsActions keep]
      simp only [Rule.dispatch, List.map_cons, List.map_nil, List.singleton_append,
        actor_set unmarked]
      exact sound.dispatch named unmarked node _ now

end IsSound

section Steps

variable {engine : Engine} {deeds : List Deed}

theorem enter_isSound (sound : IsSound engine.generation engine.keys engine.marks deeds)
    (request : PassRequest) :
    let begun := (engine.enter request).1
    IsSound begun.generation begun.keys begun.marks deeds := by
  intro begun
  by_cases same : engine.identity = some request.identity
  · have begins : begun = { engine with passes := engine.passes + 1 } := by
      simp [begun, Engine.enter, same]
    rw [begins]
    exact sound
  · have keys : begun.keys = engine.keys :=
      Rule.Advances.keys_eq (engine.enter_advances request).rules
    have generation : begun.generation = engine.generation + 1 := by
      simp [begun, Engine.generation_enter, Engine.changeBy?, same]
    rw [keys, generation]
    exact sound.later _

theorem report_isSound (sound : IsSound engine.generation engine.keys engine.marks deeds)
    {errand : Errand} (waiting : errand ∈ Deed.outstanding deeds) (succeeded : Bool) :
    let after := engine.actionFinished errand.request.rule errand.request.generation succeeded
    IsSound after.generation after.keys after.marks (.reported errand :: deeds) := by
  intro after
  by_cases current : errand.request.generation = engine.generation
  · have named := sound.named errand (Deed.mem_of_mem_outstanding waiting)
    obtain ⟨place, first⟩ := Option.isSome_iff_exists.mp
      (List.isSome_idxOf?.mpr (List.mem_of_getElem? named))
    obtain ⟨rule, found, reported⟩ := engine.actionFinished_of_first current first succeeded
    have keys : after.keys = engine.keys := by
      simp only [after, reported, Engine.keys, List.map_set, Ledger.key_actionFinished]
      exact set_eq_of_getElem? (by rw [List.getElem?_map, found, Option.map_some])
    have marks : after.marks = engine.marks.set place none := by
      simp only [after, reported, Engine.marks, List.map_set, Ledger.acting_actionFinished]
    have generation : after.generation = engine.generation := by rw [show after = _ from reported]
    rw [keys, marks, generation]
    exact sound.report waiting current first
  · have same : after = engine := if_neg current
    rw [same]
    exact sound.belated current

theorem Reached.isFresh {config : EngineConfig} {timing : Timing} {now : Time}
    {journal : Journal} (reached : Reached config timing now journal) :
    journal.engine.IsFresh := by
  induction reached with
  | refl => exact Engine.start_isFresh config timing now
  | tail _ step hypothesis =>
      cases step with
      | pass host request session => exact hypothesis.react (.pass host request session)
      | @report errand succeeded _ =>
          let request := errand.request
          exact hypothesis.react (.report request.rule request.generation succeeded)

theorem Reached.isSound {config : EngineConfig} {timing : Timing} {now : Time}
    {journal : Journal} (reached : Reached config timing now journal) :
    IsSound journal.engine.generation journal.engine.keys journal.engine.marks journal.deeds := by
  induction reached with
  | refl => constructor <;> simp [start, Deed.outstanding]
  | tail reached step hypothesis =>
      cases step with
      | pass host request session =>
          have turn := (Reached.isFresh reached).passed_turn host request session
          have begun := enter_isSound hypothesis request
          rw [afterPass, Engine.generation_passed]
          exact begun.turn turn
      | report succeeded waiting => exact report_isSound hypothesis waiting succeeded

end Steps

/-- The report of an action settles it for the rule that dispatched it, and leaves all other
rules as they were, exactly if no rule before that one has the same key and no report for the
key came since that rule dispatched last.  So it always does where no other rule has the key. -/
theorem report_settles_iff {config : EngineConfig} {timing : Timing} {now : Time}
    {journal : Journal} (reached : Reached config timing now journal) {errand : Errand}
    (waiting : errand ∈ journal.outstanding)
    (current : errand.request.generation = journal.engine.generation) (succeeded : Bool) :
    let keys := journal.engine.keys
    (journal.engine.Settles errand succeeded ↔
      (∀ place < errand.place, keys[place]? ≠ some errand.request.rule) ∧
        errand.awaits journal.deeds = true) ∧
    ((∀ place, keys[place]? = some errand.request.rule → place = errand.place) →
      journal.engine.Settles errand succeeded) := by
  intro keys
  have sound := reached.isSound
  have made := Deed.mem_of_mem_outstanding waiting
  have named := sound.named errand made
  have settles := Engine.settles_iff current named succeeded
  have first : (∀ place < errand.place, keys[place]? ≠ some errand.request.rule) ↔
      keys.idxOf? errand.request.rule = some errand.place :=
    (idxOf?_eq_some_iff_of_getElem? named).symm
  constructor
  · rw [settles, first]
    constructor
    · rintro ⟨here, marked⟩
      exact ⟨here, (sound.marked errand made current here).mp marked⟩
    · rintro ⟨here, awaits⟩
      exact ⟨here, (sound.marked errand made current here).mpr awaits⟩
  · intro only
    refine settles.mpr ⟨first.mp fun place before same => ?_, fun unmarked => ?_⟩
    · exact Nat.ne_of_lt before (only place same)
    · have few := sound.single errand.place errand.request.rule named only
      have one : 0 < (Deed.outstanding journal.deeds).countP
          (·.isOf errand.place journal.engine.generation) :=
        List.countP_pos_iff.mpr ⟨errand, waiting, by simp [Errand.isOf, current]⟩
      rw [unmarked] at few
      exact Nat.not_lt.mpr few one

section Namesakes

open Ledger (passIn)

/-- Two rules with one key, each for a button of its own. -/
def namesakes : EngineConfig :=
  { rules := [{ key := "k", selector := "[text=\"Skip\"]" },
      { key := "k", selector := "[text=\"Close\"]" }] }

/-- A tree with some buttons. -/
def buttons (titles : List String) : Host :=
  .serving (.node { appId := some "a" }
    (titles.map fun title => .node { text := some title } [])) [] true

/-- The rules as they were configured, which is the order in which they are tried. -/
def untouched : Journal :=
  let compiled := RuleSet.compileAll namesakes 0 0 0 namesakes.rules
  ⟨{ rules := ⟨compiled.1, compiled.2, true⟩, timing := {} }, []⟩

theorem start_namesakes : start namesakes {} 0 = untouched := by
  have ordered : (RuleSet.compileAll namesakes 0 0 0 namesakes.rules).1.Pairwise
      fun rule rule' => RuleSet.precedes rule rule' = true := by
    decide +kernel
  have same := List.mergeSort_of_pairwise ordered
  exact congrArg (fun rules => (⟨{ rules := ⟨rules,
    (RuleSet.compileAll namesakes 0 0 0 namesakes.rules).2, true⟩, timing := {} }, []⟩ : Journal))
    same

/-- Both rules act, one after the other. -/
def bothActing : Journal :=
  (untouched.afterPass (buttons ["Skip", "Close"]) (passIn "a.A" 0) (.fresh 0)).afterPass
    (buttons ["Skip", "Close"]) (passIn "a.A" 10) (.fresh 0)

theorem bothActing_reached : Reached namesakes {} 0 bothActing := by
  have begun : Reached namesakes {} 0 untouched := start_namesakes ▸ .refl
  have first : Reached namesakes {} 0 (untouched.afterPass (buttons ["Skip", "Close"])
      (passIn "a.A" 0) (.fresh 0)) :=
    begun.tail (.pass _ _ _)
  exact first.tail (.pass (buttons ["Skip", "Close"]) (passIn "a.A" 10) (.fresh 0))

/-- The action of the rule at some place, on the button there. -/
def clickBy (place : Nat) (node : NodeId) : Errand := ⟨⟨"k", node, .click, 1⟩, place⟩

/-- The report of the first rule's action settles it, though the second rule is acting too. -/
theorem report_settles_first :
    clickBy 0 1 ∈ bothActing.outstanding ∧ clickBy 1 2 ∈ bothActing.outstanding ∧
      (clickBy 0 1).request.generation = bothActing.engine.generation ∧
      bothActing.engine.Settles (clickBy 0 1) true := by
  have waiting : clickBy 0 1 ∈ bothActing.outstanding := by decide +kernel
  have current : (clickBy 0 1).request.generation = bothActing.engine.generation := by
    decide +kernel
  have awaits : (clickBy 0 1).awaits bothActing.deeds = true := by decide +kernel
  have settles := (report_settles_iff bothActing_reached waiting current true).1
  exact ⟨waiting, by decide +kernel, current, settles.mpr ⟨fun place before =>
    absurd before (Nat.not_lt_zero place), awaits⟩⟩

/-- Only the second rule acts. -/
def secondActing : Journal :=
  untouched.afterPass (buttons ["Close"]) (passIn "a.A" 0) (.fresh 0)

/-- The report of an action need not reach the rule that dispatched it. -/
theorem not_always_settles :
    ¬ ∀ (config : EngineConfig) (timing : Timing) (now : Time) (journal : Journal)
      (errand : Errand) (succeeded : Bool), Reached config timing now journal →
        errand ∈ journal.outstanding →
        errand.request.generation = journal.engine.generation →
        journal.engine.Settles errand succeeded := by
  intro always
  have begun : Reached namesakes {} 0 untouched := start_namesakes ▸ .refl
  have reached : Reached namesakes {} 0 secondActing :=
    begun.tail (.pass (buttons ["Close"]) (passIn "a.A" 0) (.fresh 0))
  have current : (clickBy 1 1).request.generation = secondActing.engine.generation := by
    decide +kernel
  have settles := always namesakes {} 0 secondActing (clickBy 1 1) true reached
    (by decide +kernel) current
  have named : secondActing.engine.keys[(clickBy 1 1).place]? = some "k" := by decide +kernel
  have first : secondActing.engine.keys.idxOf? "k" = some 1 :=
    ((Engine.settles_iff current named true).mp settles).1
  have other : secondActing.engine.keys.idxOf? "k" ≠ some 1 := by decide +kernel
  exact other first

end Namesakes

end Journal

end TreeSelector

import TreeSelector.Proofs.Matching.Searched
import TreeSelector.Proofs.Reading.Direct

/-!
# Trails

A trail is a way along which a chain matches: a node for each segment, each one a
candidate of the connector from the node before it.  Matching backtracks over the
candidates, and the context it returns is the trail that comes first when trails
are compared at the first node in which they differ.
-/

namespace TreeSelector

namespace Context

@[simp]
theorem toList_push (context : Context) (node : NodeId) :
    (context.push node).toList = node :: context.toList := rfl

theorem toList_foldl_push (context : Context) (nodes : List NodeId) :
    (nodes.foldl push context).toList = nodes.reverse ++ context.toList := by
  induction nodes generalizing context with
  | nil => rfl
  | cons node nodes hypothesis =>
      rw [List.foldl_cons, hypothesis, toList_push, List.reverse_cons, List.append_assoc]
      rfl

theorem eq_of_toList_eq {context context' : Context}
    (same : context.toList = context'.toList) : context = context' := by
  obtain ⟨current, earlier⟩ := context
  obtain ⟨current', earlier'⟩ := context'
  obtain ⟨rfl, rfl⟩ := List.cons.inj same
  rfl

end Context

namespace Chain

/-- From a context whose current node its head is tested on, a chain matches along
further nodes, one for each further segment.  Each segment is tested in the context of
all nodes up to its own. -/
inductive Trail (view : View) : Chain → Context → List NodeId → Prop where
  | last {segment : Segment} {context : Context} :
      (segment.predicate.holds view context).result = true →
      Trail view (last segment) context []
  | link {segment : Segment} {connector : Connector} {rest : Chain} {context : Context}
      {candidate : NodeId} {nodes : List NodeId} :
      (segment.predicate.holds view context).result = true →
      candidate ∈ (view.candidates connector context.current segment.reach).result →
      Trail view rest (context.push candidate) nodes →
      Trail view (link segment connector rest) context (candidate :: nodes)

/-- Where two trails from a node part, the first one goes on to the candidate that is
tried earlier. -/
inductive Precedes (view : View) : Chain → NodeId → List NodeId → List NodeId → Prop where
  | here {segment : Segment} {connector : Connector} {rest : Chain}
      {node earlier later : NodeId} {nodes nodes' : List NodeId} :
      (view.candidates connector node segment.reach).result.idxOf earlier <
        (view.candidates connector node segment.reach).result.idxOf later →
      Precedes view (link segment connector rest) node (earlier :: nodes) (later :: nodes')
  | beyond {segment : Segment} {connector : Connector} {rest : Chain}
      {node shared : NodeId} {nodes nodes' : List NodeId} :
      Precedes view rest shared nodes nodes' →
      Precedes view (link segment connector rest) node (shared :: nodes) (shared :: nodes')

/-- A trail that comes before all others from the same context. -/
structure FirstTrail (view : View) (chain : Chain) (context : Context)
    (nodes : List NodeId) : Prop where
  trail : Trail view chain context nodes
  first : ∀ others, Trail view chain context others →
    others = nodes ∨ Precedes view chain context.current nodes others

section Order

variable {view : View} {chain : Chain} {context : Context} {nodes nodes' : List NodeId}

theorem Precedes.asymm {node : NodeId} (before : Precedes view chain node nodes nodes') :
    ¬ Precedes view chain node nodes' nodes := by
  induction before with
  | here less =>
      intro after
      cases after with
      | here more => exact Nat.lt_asymm less more
      | beyond _ => exact Nat.lt_irrefl _ less
  | beyond _ hypothesis =>
      intro after
      cases after with
      | here more => exact Nat.lt_irrefl _ more
      | beyond later => exact hypothesis later

theorem FirstTrail.unique (first : FirstTrail view chain context nodes)
    (first' : FirstTrail view chain context nodes') : nodes = nodes' := by
  rcases first.first nodes' first'.trail with same | before
  · exact same.symm
  · rcases first'.first nodes first.trail with same | after
    · exact same
    · exact absurd after before.asymm

theorem Trail.length_eq (trail : Trail view chain context nodes) :
    nodes.length + 1 = chain.segments.length := by
  induction trail with
  | last _ => rfl
  | link _ _ _ hypothesis => rw [List.length_cons, hypothesis, segments, List.length_cons]

end Order

/-- What a search returns comes from the earliest item that gives anything. -/
theorem earliest_of_findSome? {α β : Type} [DecidableEq α] {items : List α}
    {test : α → Option β} {found : β} (success : items.findSome? test = some found) :
    ∃ item ∈ items, test item = some found ∧
      ∀ other ∈ items, test other ≠ none → items.idxOf item ≤ items.idxOf other := by
  obtain ⟨before, item, after, rfl, gives, rejected⟩ :=
    List.findSome?_eq_some_iff.mp success
  refine ⟨item, by simp, gives, ?_⟩
  intro other _ accepted
  have itemAbsent : item ∉ before := by
    intro member
    rw [rejected item member] at gives
    cases gives
  have otherAbsent : other ∉ before := fun member => accepted (rejected other member)
  rw [List.idxOf_append_of_notMem itemAbsent, List.idxOf_append_of_notMem otherAbsent,
    List.idxOf_cons_self]
  exact Nat.le_add_right _ _

section Search

variable {view : View} (steady : view.IsSteady)

include steady

/-- A chain that has a trail matches. -/
theorem matchIn_ne_none {chain : Chain} {context : Context} {nodes : List NodeId}
    (trail : Trail view chain context nodes) :
    (chain.matchIn view default context).result ≠ none := by
  induction trail with
  | last holds =>
      rw [matchIn_last steady, if_pos holds]
      exact Option.some_ne_none _
  | link holds member _ hypothesis =>
      rw [matchIn_link steady, if_pos holds]
      intro none
      exact hypothesis (List.findSome?_eq_none_iff.mp none _ member)

/-- What matching returns is the first trail. -/
theorem firstTrail_of_matchIn (chain : Chain) {context final : Context}
    (matched : (chain.matchIn view default context).result = some final) :
    ∃ nodes, final = nodes.foldl Context.push context ∧
      FirstTrail view chain context nodes := by
  induction chain generalizing context with
  | last segment =>
      rw [matchIn_last steady] at matched
      split at matched
      · rename_i holds
        refine ⟨[], (Option.some.inj matched).symm, .last holds, ?_⟩
        intro others trail
        cases trail
        exact .inl rfl
      · cases matched
  | link segment connector rest hypothesis =>
      rw [matchIn_link steady] at matched
      split at matched
      · rename_i holds
        obtain ⟨candidate, member, onward, earliest⟩ := earliest_of_findSome? matched
        obtain ⟨nodes, same, first⟩ := hypothesis onward
        refine ⟨candidate :: nodes, same, .link holds member first.trail, ?_⟩
        intro others trail
        cases trail with
        | link otherHolds otherMember otherTrail =>
            rename_i other otherNodes
            have behind := earliest other otherMember (matchIn_ne_none steady otherTrail)
            rcases Nat.lt_or_eq_of_le behind with less | same
            · exact .inr (.here less)
            · obtain rfl : candidate = other := (List.idxOf_inj member).mp same
              rcases first.first otherNodes otherTrail with equal | before
              · exact .inl (by rw [equal])
              · exact .inr (.beyond before)
      · cases matched

theorem matchIn_eq_some_iff (chain : Chain) (context final : Context) :
    (chain.matchIn view default context).result = some final ↔
      ∃ nodes, final = nodes.foldl Context.push context ∧
        FirstTrail view chain context nodes := by
  constructor
  · exact firstTrail_of_matchIn steady chain
  · rintro ⟨nodes, rfl, first⟩
    cases matched : (chain.matchIn view default context).result with
    | none => exact absurd matched (matchIn_ne_none steady first.trail)
    | some final =>
        obtain ⟨nodes', rfl, first'⟩ := firstTrail_of_matchIn steady chain matched
        rw [first.unique first']

end Search

section Target

theorem findIdx?_eq_idxOf {α : Type} (marked : α → Bool) (items : List α) :
    items.findIdx? marked =
      if (items.map marked).contains true then some ((items.map marked).idxOf true)
      else none := by
  induction items with
  | nil => rfl
  | cons item items hypothesis =>
      rw [List.findIdx?_cons, hypothesis, List.map_cons]
      cases marked item with
      | true => simp
      | false =>
          by_cases later : true ∈ items.map marked
          · simp [List.idxOf_cons_ne, later]
          · simp [later]

/-- The position of the marked segment, counted from the head; the head itself if no
segment is marked. -/
def targetPosition (chain : Chain) : Nat := (chain.segments.findIdx? (·.target)).getD 0

theorem targetIndex_eq (chain : Chain) :
    chain.targetIndex = chain.segments.length - 1 - chain.targetPosition := by
  have count : (chain.segments.map (·.target)).length = chain.segments.length :=
    List.length_map _
  unfold targetIndex targetPosition
  rw [findIdx?_eq_idxOf, ← count]
  split <;> rename_i marked <;> simp only [marked] <;> rfl

theorem targetPosition_lt (chain : Chain) : chain.targetPosition < chain.segments.length := by
  unfold targetPosition
  cases marked : chain.segments.findIdx? (·.target) with
  | some position => exact (List.findIdx?_eq_some_iff_getElem.mp marked).1
  | none => cases chain <;> exact Nat.zero_lt_succ _

/-- Stepping back from the last node of a trail leads to the node of the marked
segment. -/
theorem get?_targetIndex {chain : Chain} {context : Context} {nodes : List NodeId}
    (visited : context.toList = nodes.reverse)
    (complete : nodes.length = chain.segments.length) :
    context.get? chain.targetIndex = nodes[chain.targetPosition]? := by
  have inside := chain.targetPosition_lt
  unfold Context.get?
  rw [targetIndex_eq, visited, ← complete, List.getElem?_reverse (by omega)]
  congr 1
  omega

end Target

end Chain

section Occurrences

variable {α : Type} [DecidableEq α]

theorem idxOf_cons_lt_iff {first item item' : α} {items : List α} :
    (first :: items).idxOf item < (first :: items).idxOf item' ↔
      first ≠ item' ∧ (first = item ∨ items.idxOf item < items.idxOf item') := by
  by_cases here' : first = item'
  · subst here'
    simp
  · rw [List.idxOf_cons_ne _ here']
    by_cases here : first = item
    · subst here
      simp [here']
    · rw [List.idxOf_cons_ne _ here]
      simp [here, here']

theorem idxOf_filter_lt_iff (keep : α → Bool) {item item' : α} (kept : keep item = true)
    (kept' : keep item' = true) (items : List α) :
    (items.filter keep).idxOf item < (items.filter keep).idxOf item' ↔
      items.idxOf item < items.idxOf item' := by
  induction items with
  | nil => rfl
  | cons first items hypothesis =>
      by_cases keepFirst : keep first = true
      · rw [List.filter_cons_of_pos keepFirst, idxOf_cons_lt_iff, idxOf_cons_lt_iff, hypothesis]
      · have different : first ≠ item := by
          rintro rfl
          exact keepFirst kept
        have different' : first ≠ item' := by
          rintro rfl
          exact keepFirst kept'
        rw [List.filter_cons_of_neg keepFirst, hypothesis, idxOf_cons_lt_iff]
        simp [different, different']

/-- Dropping repetitions leaves items in the order in which they first occur. -/
theorem idxOf_firstOccurrences_lt_iff (item item' : α) (items : List α) :
    (firstOccurrences items).idxOf item < (firstOccurrences items).idxOf item' ↔
      items.idxOf item < items.idxOf item' := by
  induction items with
  | nil => rfl
  | cons first items hypothesis =>
      rw [firstOccurrences, idxOf_cons_lt_iff, idxOf_cons_lt_iff]
      refine and_congr_right fun different' => ?_
      by_cases here : first = item
      · simp [here]
      · have kept : decide (item ≠ first) = true := by simpa using Ne.symm here
        have kept' : decide (item' ≠ first) = true := by simpa using Ne.symm different'
        rw [idxOf_filter_lt_iff (· ≠ first) kept kept', hypothesis]

theorem head?_firstOccurrences (items : List α) :
    (firstOccurrences items).head? = items.head? := by
  cases items <;> rfl

end Occurrences

end TreeSelector

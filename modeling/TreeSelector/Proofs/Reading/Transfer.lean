import TreeSelector.Proofs.Reading.Evaluation

/-!
# What follows from the primitives

Evaluation, walks and queries through a view follow the same computations through
the view that its primitives follow, as long as they ask for nothing outside of the scope
in which these do.  There is one lemma for each function, with its recursion.
-/

namespace TreeSelector

/-- To follow a reference is kept when readings are composed. -/
def Reading.Congruence.following (kept : Session → Prop) : Congruence where
  Relates := Follows kept
  pure := .pure
  bind := .bind

variable {kept : Session → Prop} {scope : Scope} {view reference : View}

theorem Reading.Follows.findPosition {test test' : Nat → Reading Bool}
    (tests : ∀ position, Follows kept (test position) (test' position))
    (position count : Nat) :
    Follows kept (findPosition test position count) (findPosition test' position count) := by
  have relates : ∀ position,
    (Congruence.following kept).Relates (test position) (test' position) := tests
  exact Congruence.Relates.findPosition relates position count

section Lists

variable {α : Type} {test test' : NodeId → Reading (Option α)}

theorem Reading.Follows.searchAmong
    (tests : ∀ node, Follows kept (test node) (test' node)) (nodes : List NodeId) :
    Follows kept (View.searchAmong test nodes) (View.searchAmong test' nodes) := by
  have relates : ∀ node, (Congruence.following kept).Relates (test node) (test' node) := tests
  exact Congruence.Relates.searchAmong relates nodes

theorem Reading.Follows.collectAmong
    (tests : ∀ node, Follows kept (test node) (test' node)) (nodes : List NodeId) :
    Follows kept (View.collectAmong test nodes) (View.collectAmong test' nodes) := by
  have relates : ∀ node, (Congruence.following kept).Relates (test node) (test' node) := tests
  exact Congruence.Relates.collectAmong relates nodes

end Lists

/-- The route on which a walk goes on, if it does. -/
def Stop.onward : Stop → Option Route
  | .ended => none
  | .skipped route | .reached _ route => some route

theorem Route.onward_tried (route : Route) (found : Option NodeId) :
    (route.tried found).onward = some route := by
  cases found <;> rfl

namespace View.FollowsWithin

section Evaluation

theorem relates (follows : view.FollowsWithin kept scope reference) :
    view.RelatesWithin (.following kept) scope reference where
  parent := follows.parent
  child := fun far node index => follows.child node index (.inl far)
  childCount := follows.childCount
  index := fun upward node => (follows.index upward node).follows
  depth := follows.depth
  attributeValue := follows.attributeValue

theorem predicate (follows : view.FollowsWithin kept scope reference) (context : Context)
    (predicate : Predicate) (permits : scope.Permits predicate.names) :
    Reading.Follows kept (predicate.holds view context) (predicate.holds reference context) :=
  follows.relates.predicate context predicate permits

end Evaluation

section Walks

theorem remaining (follows : view.FollowsWithin kept scope reference) {frame : Frame}
    (within : frame.StaysWithin scope) :
    Reading.FollowsTo kept (fun left => ∀ step < left, scope.Covers (frame.next + step))
      (frame.remaining view) (frame.remaining reference) := by
  rcases frame with ⟨node, next, _ | left⟩
  · refine (follows.childCount node).bindTo fun count => .pure fun step inside => ?_
    exact within step (Nat.lt_of_lt_of_le inside (Nat.min_le_right _ _))
  · exact .pure within

theorem firstChild (follows : view.FollowsWithin kept scope reference) (node : NodeId)
    {next left : Nat} (within : ∀ step < left, scope.Covers (next + step)) :
    Reading.FollowsTo kept (fun found => ∀ child ∈ found, child.2.StaysWithin scope)
      (Frame.firstChild view node next left) (Frame.firstChild reference node next left) := by
  induction left generalizing next with
  | zero => exact .pure nofun
  | succ left hypothesis =>
      have later : ∀ step < left, scope.Covers (next + 1 + step) := by
        intro step inside
        rw [Nat.add_assoc, Nat.add_comm 1]
        exact within (step + 1) (by omega)
      refine (follows.child node next (within 0 (Nat.succ_pos left))).bindTo fun found => ?_
      cases found with
      | none => exact hypothesis later
      | some child =>
          refine .pure ?_
          rintro _ ⟨⟩
          exact later

theorem descend (follows : view.FollowsWithin kept scope reference) {stack : List Frame}
    (within : ∀ frame ∈ stack, frame.StaysWithin scope) :
    Reading.FollowsTo kept
      (fun found => ∀ next ∈ found, ∀ frame ∈ next.2, frame.StaysWithin scope)
      (Route.descend view stack) (Route.descend reference stack) := by
  induction stack with
  | nil => exact .pure nofun
  | cons frame stack hypothesis =>
      obtain ⟨top, below⟩ := List.forall_mem_cons.mp within
      refine (follows.remaining top).bind fun left inside => ?_
      refine (follows.firstChild frame.node inside).bind fun found produced => ?_
      cases found with
      | none => exact hypothesis below
      | some found =>
          refine .pure ?_
          rintro _ ⟨⟩
          refine List.forall_mem_cons.mpr ⟨Frame.unopened_staysWithin scope _, ?_⟩
          exact List.forall_mem_cons.mpr ⟨produced found rfl, below⟩

theorem look (follows : view.FollowsWithin kept scope reference) {offset left : Nat}
    {route : Route} (within : route.StaysWithin scope offset (left + 1)) :
    Reading.FollowsTo kept
      (fun stop => ∀ route ∈ stop.onward, route.StaysWithin scope (offset + 1) left)
      (route.look view offset) (route.look reference offset) := by
  have positional : ∀ (parent : NodeId) (index : Nat), scope.Covers index →
      Reading.FollowsTo kept
        (fun stop => ∀ route ∈ stop.onward, route.StaysWithin scope (offset + 1) left)
        (do return route.tried (← view.child parent index))
        (do return route.tried (← reference.child parent index)) := by
    intro parent index covered
    refine (follows.child parent index covered).bindTo fun found => .pure ?_
    rw [Route.onward_tried]
    rintro _ ⟨⟩
    exact within.next
  cases route with
  | forward parent origin => exact positional parent _ (within 0 (Nat.succ_pos left))
  | backward parent origin => exact positional parent _ (within 0 (Nat.succ_pos left))
  | children parent => exact positional parent _ (within 0 (Nat.succ_pos left))
  | upward current =>
      refine (follows.parent within current).bindTo fun found => ?_
      cases found with
      | none => exact .pure nofun
      | some parent =>
          refine .pure ?_
          rintro _ ⟨⟩
          exact within
  | below stack =>
      refine (follows.descend within).bind fun found inside => ?_
      cases found with
      | none => exact .pure nofun
      | some found =>
          refine .pure ?_
          rintro _ ⟨⟩
          exact inside found rfl

theorem start_brothers (follows : view.FollowsWithin kept scope reference)
    (upward : scope.upward = true) {connector : Connector}
    (brothers : connector = .beforeBrother ∨ connector = .afterBrother) (node : NodeId)
    (window : Window) :
    Reading.FollowsTo kept (Walk.StaysWithin scope) (Walk.start view connector node window)
      (Walk.start reference connector node window) := by
  have nowhere : Walk.empty.StaysWithin scope := nofun
  rcases brothers with rfl | rfl
  all_goals
    refine (follows.parent upward node).bindTo fun parent => ?_
    refine (follows.index upward node).bind fun index covered => ?_
    rcases parent with _ | parent
    · exact .pure nowhere
    rcases index with _ | origin
    · exact .pure nowhere
    refine (follows.childCount parent).bindTo fun count => .pure ?_
  · intro step _
    exact (covered origin rfl).of_le (Nat.sub_le _ _)
  · intro step inside
    have room := Walk.offset_positional_add_lt inside
    exact .inr (by omega)

theorem start (follows : view.FollowsWithin kept scope reference) {connector : Connector}
    (leads : scope.leadsOver connector = true) (node : NodeId) (window : Window) :
    Reading.FollowsTo kept (Walk.StaysWithin scope) (Walk.start view connector node window)
      (Walk.start reference connector node window) := by
  cases connector with
  | beforeBrother => exact follows.start_brothers leads (.inl rfl) node window
  | afterBrother => exact follows.start_brothers leads (.inr rfl) node window
  | ancestor =>
      simp only [Walk.start, follows.heightBound]
      exact .pure leads
  | child =>
      refine (follows.childCount node).bindTo fun count => .pure ?_
      intro step inside
      have room := Walk.offset_positional_add_lt inside
      exact .inr (by omega)
  | descendant =>
      refine .pure (List.forall_mem_singleton.mpr ?_)
      exact Frame.unopened_staysWithin scope node

theorem pull (follows : view.FollowsWithin kept scope reference) (lower : Nat) {route : Route}
    {offset left : Nat} (within : route.StaysWithin scope offset left) :
    Reading.FollowsTo kept (fun found => ∀ next ∈ found, next.2.StaysWithin scope)
      (Walk.pull view lower route offset left) (Walk.pull reference lower route offset left) := by
  induction left generalizing route offset with
  | zero => exact .pure nofun
  | succ left hypothesis =>
      refine (follows.look within).bind fun stop onwards => ?_
      cases stop with
      | ended => exact .pure nofun
      | skipped route => exact hypothesis (onwards route rfl)
      | reached node route =>
          dsimp only
          split
          · exact hypothesis (onwards route rfl)
          · refine .pure ?_
            rintro _ ⟨⟩
            exact onwards route rfl

theorem next (follows : view.FollowsWithin kept scope reference) {walk : Walk}
    (within : walk.StaysWithin scope) :
    Reading.FollowsTo kept (fun found => ∀ next ∈ found, next.2.StaysWithin scope)
      (walk.next view) (walk.next reference) :=
  follows.pull _ within

theorem take (follows : view.FollowsWithin kept scope reference) (count : Nat) {walk : Walk}
    (within : walk.StaysWithin scope) :
    Reading.Follows kept (Walk.take view count walk) (Walk.take reference count walk) := by
  induction count generalizing walk with
  | zero => exact .pure []
  | succ count hypothesis =>
      refine (follows.next within).bindFollows fun found onwards => ?_
      cases found with
      | none => exact .pure []
      | some found => exact (hypothesis (onwards found rfl)).map _

variable {α : Type} {test test' : NodeId → Reading (Option α)}

theorem searchUpTo (follows : view.FollowsWithin kept scope reference)
    (tests : ∀ node, Reading.Follows kept (test node) (test' node)) (count : Nat) {walk : Walk}
    (within : walk.StaysWithin scope) :
    Reading.Follows kept (Walk.searchUpTo view test count walk)
      (Walk.searchUpTo reference test' count walk) := by
  induction count generalizing walk with
  | zero => exact .pure none
  | succ count hypothesis =>
      refine (follows.next within).bindFollows fun found onwards => ?_
      cases found with
      | none => exact .pure none
      | some found =>
          refine (tests found.1).bind fun answer => ?_
          cases answer with
          | none => exact hypothesis (onwards found rfl)
          | some answer => exact .pure _

theorem search (follows : view.FollowsWithin kept scope reference)
    (tests : ∀ node, Reading.Follows kept (test node) (test' node)) {walk : Walk}
    (within : walk.StaysWithin scope) :
    Reading.Follows kept (walk.search view test) (walk.search reference test') :=
  follows.searchUpTo tests _ within

theorem collectUpTo (follows : view.FollowsWithin kept scope reference)
    (tests : ∀ node, Reading.Follows kept (test node) (test' node)) (count : Nat) {walk : Walk}
    (within : walk.StaysWithin scope) :
    Reading.Follows kept (Walk.collectUpTo view test count walk)
      (Walk.collectUpTo reference test' count walk) := by
  induction count generalizing walk with
  | zero => exact .pure []
  | succ count hypothesis =>
      refine (follows.next within).bindFollows fun found onwards => ?_
      cases found with
      | none => exact .pure []
      | some found =>
          refine (tests found.1).bind fun answer => ?_
          cases answer with
          | none => exact hypothesis (onwards found rfl)
          | some answer => exact (hypothesis (onwards found rfl)).map _

theorem collect (follows : view.FollowsWithin kept scope reference)
    (tests : ∀ node, Reading.Follows kept (test node) (test' node)) {walk : Walk}
    (within : walk.StaysWithin scope) :
    Reading.Follows kept (walk.collect view test) (walk.collect reference test') :=
  follows.collectUpTo tests _ within

end Walks

section Queries

theorem answersTo (follows : view.FollowsWithin kept scope reference) (node : NodeId)
    (keys : List IndexKey) :
    Reading.Follows kept (view.answersTo node keys) (reference.answersTo node keys) :=
  follows.relates.answersTo node keys

theorem find (follows : view.FollowsWithin kept scope reference) (node : NodeId)
    (keys : List IndexKey) :
    Reading.Follows kept (view.find node keys) (reference.find node keys) := by
  refine (follows.lookUp node keys).bind fun found => ?_
  cases found with
  | some found => exact .pure _
  | none =>
      refine (follows.answersTo node keys).bind fun self => ?_
      refine (follows.start rfl _ _).bindFollows fun walk within => ?_
      refine Reading.Follows.bind (follows.collect (fun node => ?_) within) fun below => .pure _
      exact (follows.answersTo node keys).bind fun _ => .ite (.pure _) (.pure _)

theorem matchIn (follows : view.FollowsWithin kept scope reference) (options : QueryOptions)
    {chain : Chain} (within : chain.StaysWithin scope) (context : Context) :
    Reading.Follows kept (chain.matchIn view options context)
      (chain.matchIn reference options context) := by
  induction chain generalizing context with
  | last segment =>
      refine (follows.predicate context _ within.predicate_last).bind fun holds => ?_
      exact .ite (.pure _) (.pure none)
  | link segment connector rest hypothesis =>
      refine (follows.predicate context _ within.predicate_link).bind fun holds =>
        .ite ?_ (.pure none)
      refine .ite ?_ ?_
      · refine (follows.find _ _).bind fun found => ?_
        exact .searchAmong (fun node => hypothesis within.rest_link (context.push node)) _
      · refine (follows.start within.connector_link _ _).bindFollows fun walk onwards => ?_
        exact follows.search (fun node => hypothesis within.rest_link (context.push node)) onwards

variable {chain : Chain} (within : chain.StaysWithin scope)

include within

theorem matchContext (follows : view.FollowsWithin kept scope reference)
    (options : QueryOptions) (node : NodeId) :
    Reading.Follows kept (chain.matchContext view options node)
      (chain.matchContext reference options node) := by
  have matched := fun start => follows.matchIn options within (.single start)
  unfold Chain.matchContext
  split
  · exact follows.root.bind fun _ => (Reading.Follows.pure _).bind matched
  · exact (Reading.Follows.pure node).bind matched

theorem matchNode (follows : view.FollowsWithin kept scope reference)
    (options : QueryOptions) (node : NodeId) :
    Reading.Follows kept (chain.matchNode view options node)
      (chain.matchNode reference options node) :=
  (matchContext within follows options node).map _

theorem query (follows : view.FollowsWithin kept scope reference)
    (options : QueryOptions) (node : NodeId) :
    Reading.Follows kept (chain.query view options node) (chain.query reference options node) := by
  have tests := matchNode within follows options
  refine .ite (tests node) (.ite ?_ ?_)
  · exact (follows.find _ _).bind fun found => .searchAmong tests found
  · refine (tests node).bind fun found => ?_
    cases found with
    | some found => exact .pure _
    | none =>
        exact (follows.start rfl _ _).bindFollows fun walk onwards =>
          follows.search tests onwards

theorem queryAll (follows : view.FollowsWithin kept scope reference)
    (options : QueryOptions) (node : NodeId) :
    Reading.Follows kept (chain.queryAll view options node)
      (chain.queryAll reference options node) := by
  have tests := matchNode within follows options
  refine .ite ((tests node).map _) (.ite ?_ ?_)
  · refine (follows.find _ _).bind fun found => ?_
    exact (Reading.Follows.collectAmong tests found).map _
  · refine (tests node).bind fun self => ?_
    refine (follows.start rfl _ _).bindFollows fun walk onwards => ?_
    exact (follows.collect tests onwards).map _

end Queries

end View.FollowsWithin

namespace View.Follows

section Unlimited

/-! A view that follows in everything need not be asked with care. -/

theorem predicate (follows : view.Follows kept reference) (context : Context)
    (predicate : Predicate) :
    Reading.Follows kept (predicate.holds view context) (predicate.holds reference context) :=
  follows.within.predicate context predicate (Scope.permits_names_everything _)

theorem firstChild (follows : view.Follows kept reference) (node : NodeId)
    (next left : Nat) :
    Reading.Follows kept (Frame.firstChild view node next left)
      (Frame.firstChild reference node next left) :=
  (follows.within.firstChild node fun _ _ => Scope.covers_everything _).follows

theorem descend (follows : view.Follows kept reference) (stack : List Frame) :
    Reading.Follows kept (Route.descend view stack) (Route.descend reference stack) :=
  (follows.within.descend fun frame _ => frame.staysWithin_everything).follows

theorem start (follows : view.Follows kept reference) (connector : Connector)
    (node : NodeId) (window : Window) :
    Reading.Follows kept (Walk.start view connector node window)
      (Walk.start reference connector node window) :=
  (follows.within.start (Scope.leadsOver_everything connector) node window).follows

theorem next (follows : view.Follows kept reference) (walk : Walk) :
    Reading.Follows kept (walk.next view) (walk.next reference) :=
  (follows.within.next walk.staysWithin_everything).follows

theorem take (follows : view.Follows kept reference) (count : Nat) (walk : Walk) :
    Reading.Follows kept (Walk.take view count walk) (Walk.take reference count walk) :=
  follows.within.take count walk.staysWithin_everything

theorem toList (follows : view.Follows kept reference) (walk : Walk) :
    Reading.Follows kept (walk.toList view) (walk.toList reference) :=
  follows.take _ walk

theorem answersTo (follows : view.Follows kept reference) (node : NodeId)
    (keys : List IndexKey) :
    Reading.Follows kept (view.answersTo node keys) (reference.answersTo node keys) :=
  follows.within.answersTo node keys

theorem find (follows : view.Follows kept reference) (node : NodeId)
    (keys : List IndexKey) :
    Reading.Follows kept (view.find node keys) (reference.find node keys) :=
  follows.within.find node keys

theorem matchIn (follows : view.Follows kept reference) (options : QueryOptions)
    (chain : Chain) (context : Context) :
    Reading.Follows kept (chain.matchIn view options context)
      (chain.matchIn reference options context) :=
  follows.within.matchIn options chain.staysWithin_everything context

theorem matchContext (follows : view.Follows kept reference) (options : QueryOptions)
    (chain : Chain) (node : NodeId) :
    Reading.Follows kept (chain.matchContext view options node)
      (chain.matchContext reference options node) :=
  View.FollowsWithin.matchContext chain.staysWithin_everything follows.within options node

theorem matchNode (follows : view.Follows kept reference) (options : QueryOptions)
    (chain : Chain) (node : NodeId) :
    Reading.Follows kept (chain.matchNode view options node)
      (chain.matchNode reference options node) :=
  View.FollowsWithin.matchNode chain.staysWithin_everything follows.within options node

theorem query (follows : view.Follows kept reference) (options : QueryOptions)
    (chain : Chain) (node : NodeId) :
    Reading.Follows kept (chain.query view options node)
      (chain.query reference options node) :=
  View.FollowsWithin.query chain.staysWithin_everything follows.within options node

theorem queryAll (follows : view.Follows kept reference) (options : QueryOptions)
    (chain : Chain) (node : NodeId) :
    Reading.Follows kept (chain.queryAll view options node)
      (chain.queryAll reference options node) :=
  View.FollowsWithin.queryAll chain.staysWithin_everything follows.within options node

end Unlimited

end View.Follows

end TreeSelector

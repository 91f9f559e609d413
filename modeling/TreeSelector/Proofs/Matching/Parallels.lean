import TreeSelector.Matching
import TreeSelector.Proofs.Reading.Evaluation

/-!
# Matching through two views

A relation between readings that is kept when readings are composed holds of walks and
matches through two views as soon as it holds of every question that the views answer.
There is one lemma for each function, with its recursion.
-/

namespace TreeSelector

/-- Two views all of whose answers are related. -/
structure View.Parallels (alike : Reading.Congruence) (view reference : View) : Prop where
  evaluation : view.RelatesWithin alike .everything reference
  lookUp : ∀ node keys, alike.Relates (view.lookUp node keys) (reference.lookUp node keys)
  heightBound : view.heightBound = reference.heightBound

namespace View.Parallels

variable {alike : Reading.Congruence} {view reference : View}

theorem predicate (parallels : view.Parallels alike reference) (context : Context)
    (predicate : Predicate) :
    alike.Relates (predicate.holds view context) (predicate.holds reference context) :=
  parallels.evaluation.predicate context predicate (Scope.permits_names_everything _)

section Walks

theorem remaining (parallels : view.Parallels alike reference) (frame : Frame) :
    alike.Relates (frame.remaining view) (frame.remaining reference) := by
  unfold Frame.remaining
  split
  · exact .pure _
  · exact (parallels.evaluation.childCount _).map _

theorem firstChild (parallels : view.Parallels alike reference) (node : NodeId)
    (next left : Nat) :
    alike.Relates (Frame.firstChild view node next left)
      (Frame.firstChild reference node next left) := by
  induction left generalizing next with
  | zero => exact .pure none
  | succ left hypothesis =>
      refine (parallels.evaluation.child rfl node next).bind fun found => ?_
      cases found with
      | none => exact hypothesis (next + 1)
      | some child => exact .pure _

theorem descend (parallels : view.Parallels alike reference) (stack : List Frame) :
    alike.Relates (Route.descend view stack) (Route.descend reference stack) := by
  induction stack with
  | nil => exact .pure none
  | cons frame stack hypothesis =>
      refine (parallels.remaining frame).bind fun left => ?_
      refine (parallels.firstChild frame.node frame.next left).bind fun found => ?_
      cases found with
      | none => exact hypothesis
      | some found => exact .pure _

theorem look (parallels : view.Parallels alike reference) (offset : Nat) (route : Route) :
    alike.Relates (route.look view offset) (route.look reference offset) := by
  cases route with
  | forward | backward | children => exact (parallels.evaluation.child rfl _ _).map _
  | upward current =>
      refine (parallels.evaluation.parent rfl current).bind fun found => ?_
      cases found <;> exact .pure _
  | below stack =>
      refine (parallels.descend stack).bind fun found => ?_
      cases found <;> exact .pure _

theorem start (parallels : view.Parallels alike reference) (connector : Connector)
    (node : NodeId) (window : Window) :
    alike.Relates (Walk.start view connector node window)
      (Walk.start reference connector node window) := by
  cases connector with
  | beforeBrother | afterBrother =>
      refine (parallels.evaluation.parent rfl node).bind fun parent => ?_
      refine (parallels.evaluation.index rfl node).bind fun index => ?_
      rcases parent with _ | parent
      · exact .pure _
      rcases index with _ | origin
      · exact .pure _
      exact (parallels.evaluation.childCount parent).bind fun count => .pure _
  | ancestor =>
      simp only [Walk.start, parallels.heightBound]
      exact .pure _
  | child => exact (parallels.evaluation.childCount node).map _
  | descendant => exact .pure _

theorem pull (parallels : view.Parallels alike reference) (lower : Nat) (route : Route)
    (offset left : Nat) :
    alike.Relates (Walk.pull view lower route offset left)
      (Walk.pull reference lower route offset left) := by
  induction left generalizing route offset with
  | zero => exact .pure none
  | succ left hypothesis =>
      refine (parallels.look offset route).bind fun stop => ?_
      cases stop with
      | ended => exact .pure none
      | skipped route => exact hypothesis route (offset + 1)
      | reached node route => exact .ite (hypothesis route (offset + 1)) (.pure _)

variable {α : Type} {test test' : NodeId → Reading (Option α)}

theorem search (parallels : view.Parallels alike reference)
    (tests : ∀ node, alike.Relates (test node) (test' node)) (walk : Walk) :
    alike.Relates (walk.search view test) (walk.search reference test') := by
  have searchUpTo : ∀ (count : Nat) (walk : Walk),
      alike.Relates (Walk.searchUpTo view test count walk)
        (Walk.searchUpTo reference test' count walk) := by
    intro count
    induction count with
    | zero => exact fun _ => .pure none
    | succ count hypothesis =>
        intro walk
        refine (parallels.pull walk.lower walk.route walk.offset walk.left).bind fun found => ?_
        cases found with
        | none => exact .pure none
        | some found =>
            refine (tests found.1).bind fun answer => ?_
            cases answer with
            | none => exact hypothesis found.2
            | some answer => exact .pure _
  exact searchUpTo walk.left walk

theorem collect (parallels : view.Parallels alike reference)
    (tests : ∀ node, alike.Relates (test node) (test' node)) (walk : Walk) :
    alike.Relates (walk.collect view test) (walk.collect reference test') := by
  have collectUpTo : ∀ (count : Nat) (walk : Walk),
      alike.Relates (Walk.collectUpTo view test count walk)
        (Walk.collectUpTo reference test' count walk) := by
    intro count
    induction count with
    | zero => exact fun _ => .pure []
    | succ count hypothesis =>
        intro walk
        refine (parallels.pull walk.lower walk.route walk.offset walk.left).bind fun found => ?_
        cases found with
        | none => exact .pure []
        | some found =>
            refine (tests found.1).bind fun answer => ?_
            cases answer with
            | none => exact hypothesis found.2
            | some answer => exact (hypothesis found.2).map _
  exact collectUpTo walk.left walk

end Walks

theorem find (parallels : view.Parallels alike reference) (node : NodeId)
    (keys : List IndexKey) :
    alike.Relates (view.find node keys) (reference.find node keys) := by
  have answers := fun node => parallels.evaluation.answersTo node keys
  refine (parallels.lookUp node keys).bind fun found => ?_
  cases found with
  | some found => exact .pure _
  | none =>
      refine (answers node).bind fun self => ?_
      refine (parallels.start _ _ _).bind fun walk => ?_
      refine (parallels.collect (fun node => ?_) walk).map _
      exact (answers node).bind fun _ => .ite (.pure _) (.pure _)

theorem matchIn (parallels : view.Parallels alike reference) (options : QueryOptions)
    (chain : Chain) (context : Context) :
    alike.Relates (chain.matchIn view options context)
      (chain.matchIn reference options context) := by
  induction chain generalizing context with
  | last segment =>
      refine (parallels.predicate context segment.predicate).bind fun holds => ?_
      exact .ite (.pure _) (.pure none)
  | link segment connector rest hypothesis =>
      refine (parallels.predicate context segment.predicate).bind fun holds =>
        .ite (.ite ?_ ?_) (.pure none)
      · refine (parallels.find _ _).bind fun found => ?_
        exact .searchAmong (fun node => hypothesis (context.push node)) _
      · refine (parallels.start connector _ _).bind fun walk => ?_
        exact parallels.search (fun node => hypothesis (context.push node)) walk

end View.Parallels

end TreeSelector

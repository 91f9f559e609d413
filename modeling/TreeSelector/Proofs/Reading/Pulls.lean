import Mathlib.Data.List.ReduceOption
import TreeSelector.Proofs.Reading.Direct

/-!
# What walks come upon

A walk comes upon something at each of its offsets until it or its window ends, and keeps the
candidates that are not before its window.  Where candidates are at known places it begins
with the window and asks for each of them once.
-/

namespace TreeSelector

open Reading (Ensures after_bind after_pure)

namespace Walk

variable {view : View}

/-- What a route comes upon at the next offsets, up to its end; a candidate that the host
fails to produce is none. -/
def pullsFrom (view : View) (route : Route) (offset : Nat) :
    (left : Nat) → Reading (List (Option NodeId))
  | 0 => return []
  | left + 1 => do
      match ← route.look view offset with
      | .ended => return []
      | .skipped route => return none :: (← pullsFrom view route (offset + 1) left)
      | .reached node route => return some node :: (← pullsFrom view route (offset + 1) left)

/-- What a walk comes upon at the offsets that remain, until it or its window ends. -/
def pulls (view : View) (walk : Walk) : Reading (List (Option NodeId)) :=
  pullsFrom view walk.route walk.offset walk.left

/-- The candidates among what a walk comes upon, without those before its window. -/
def kept (walk : Walk) (pulled : List (Option NodeId)) : List NodeId :=
  (pulled.drop (walk.lower - walk.offset)).reduceOption

/-- A candidate before the window makes no difference, and neither does none at all. -/
theorem reduceOption_drop_cons {lower offset : Nat} {found : Option NodeId}
    (passed : offset < lower ∨ found = none) (pulled : List (Option NodeId)) :
    ((found :: pulled).drop (lower - offset)).reduceOption =
      (pulled.drop (lower - (offset + 1))).reduceOption := by
  rcases Nat.lt_or_ge offset lower with early | late
  · rw [show lower - offset = lower - (offset + 1) + 1 by omega, List.drop_succ_cons]
  · obtain rfl : found = none := passed.resolve_left (Nat.not_lt.mpr late)
    simp [Nat.sub_eq_zero_of_le late, Nat.sub_eq_zero_of_le (Nat.le_succ_of_le late)]

theorem take_eq_pullsFrom (view : View) (route : Route) (offset left lower count : Nat)
    (enough : left ≤ count) :
    take view count ⟨route, offset, left, lower⟩ =
      (do
        let pulled ← pullsFrom view route offset left
        return (pulled.drop (lower - offset)).reduceOption) := by
  induction left generalizing route offset count with
  | zero =>
      simp only [pullsFrom, pure_bind, List.drop_nil, List.reduceOption_nil]
      cases count <;> rfl
  | succ left hypothesis =>
      obtain ⟨count, rfl⟩ : ∃ fewer, count = fewer + 1 := ⟨count - 1, by omega⟩
      -- what is passed over leaves a walk that is one step further
      have passes : ∀ (route : Route) (found : Option NodeId), offset < lower ∨ found = none →
          take view (count + 1) ⟨route, offset + 1, left, lower⟩ =
            (do
              let pulled ← pullsFrom view route (offset + 1) left
              return ((found :: pulled).drop (lower - offset)).reduceOption) := by
        intro route found passed
        simp only [hypothesis route (offset + 1) (count + 1) (by omega),
          reduceOption_drop_cons passed]
      simp only [take, next] at passes
      simp only [pullsFrom, take, next, pull, bind_assoc]
      congr 1
      funext stop
      cases stop with
      | ended => simp
      | skipped route => simpa using passes route none (.inr rfl)
      | reached node route =>
          by_cases early : offset < lower
          · simpa [early] using passes route (some node) (.inl early)
          · have late : lower ≤ offset := Nat.le_of_not_lt early
            simp [early, hypothesis route (offset + 1) count (by omega),
              Nat.sub_eq_zero_of_le late, Nat.sub_eq_zero_of_le (Nat.le_succ_of_le late)]

/-- The candidates of a walk are what it keeps of what it comes upon. -/
theorem toList_eq_pulls (view : View) (walk : Walk) :
    walk.toList view = (do return walk.kept (← walk.pulls view)) :=
  take_eq_pullsFrom view walk.route walk.offset walk.left walk.lower walk.left (Nat.le_refl _)

theorem pullsFrom_ensures_length (view : View) (route : Route) (offset left : Nat) :
    Ensures (fun pulled => pulled.length ≤ left) (pullsFrom view route offset left) := by
  induction left generalizing route offset with
  | zero => exact .pure (Nat.le_refl 0)
  | succ left hypothesis =>
      refine (Ensures.any _).bind fun stop _ => ?_
      cases stop with
      | ended => exact .pure (Nat.zero_le _)
      | skipped route =>
          exact (hypothesis route (offset + 1)).bind fun _ short => .pure (Nat.succ_le_succ short)
      | reached node route =>
          exact (hypothesis route (offset + 1)).bind fun _ short => .pure (Nat.succ_le_succ short)

theorem room_le (window : Window) (offset bound : Nat) :
    ∀ max ∈ window.max, room window offset bound ≤ max.toNat + 1 - offset := by
  intro max bounded
  simp only [room, Option.mem_def.mp bounded]
  omega

end Walk

/-- The connectors whose candidates are at known places. -/
def Connector.isPositional : Connector → Bool
  | .beforeBrother | .afterBrother | .child => true
  | .ancestor | .descendant => false

/-- The routes over candidates at known places. -/
def Route.isPositional : Route → Bool
  | .forward _ _ | .backward _ _ | .children _ => true
  | .upward _ | .below _ => false

theorem Route.exists_look_eq {route : Route} (positional : route.isPositional = true)
    (view : View) (offset : Nat) :
    ∃ parent index, route.look view offset =
      (do return route.tried (← view.child parent index)) := by
  cases route with
  | forward parent origin => exact ⟨parent, origin + 1 + offset, rfl⟩
  | backward parent origin => exact ⟨parent, origin - (1 + offset), rfl⟩
  | children parent => exact ⟨parent, offset, rfl⟩
  | upward | below => cases positional

/-- A walk over candidates at known places that begins with its window, or one without
candidates. -/
def Walk.IsDirect (window : Window) (walk : Walk) : Prop :=
  walk.left = 0 ∨ walk.route.isPositional = true ∧
    ∀ max ∈ window.max, walk.left ≤ max.toNat - window.min.toNat + 1

theorem Walk.positional_isDirect (window : Window) {route : Route}
    (positional : route.isPositional = true) (count : Nat) :
    (Walk.positional window route count).IsDirect window := by
  refine .inr ⟨positional, fun max bounded => ?_⟩
  have few := room_le window window.min.toNat count max bounded
  simp only [Walk.positional]
  omega

/-- A walk begins with no more offsets than its window has up to its end, and with no more
than its window has where candidates are at known places. -/
theorem Walk.start_ensures (view : View) (connector : Connector) (node : NodeId)
    (window : Window) :
    Ensures
      (fun walk => (∀ max ∈ window.max, walk.left ≤ max.toNat + 1) ∧
        (connector.isPositional = true → walk.IsDirect window))
      (Walk.start view connector node window) := by
  have counted : ∀ (route : Route) (count : Nat),
      ∀ max ∈ window.max, (Walk.positional window route count).left ≤ max.toNat + 1 := by
    intro route count max bounded
    exact Nat.le_trans (room_le window window.min.toNat count max bounded) (Nat.sub_le _ _)
  cases connector with
  | beforeBrother | afterBrother =>
      refine (Ensures.any _).bind fun parent _ => ?_
      refine (Ensures.any _).bind fun index _ => ?_
      rcases parent with _ | parent
      · exact .pure ⟨fun _ _ => Nat.zero_le _, fun _ => .inl rfl⟩
      rcases index with _ | origin
      · exact .pure ⟨fun _ _ => Nat.zero_le _, fun _ => .inl rfl⟩
      refine (Ensures.any _).bind fun count _ => ?_
      exact .pure ⟨counted _ _, fun _ => positional_isDirect window rfl _⟩
  | child =>
      refine (Ensures.any _).bind fun count _ => ?_
      exact .pure ⟨counted _ _, fun _ => positional_isDirect window rfl _⟩
  | ancestor | descendant =>
      exact .pure ⟨fun max bounded => room_le window 0 _ max bounded, nofun⟩

namespace Host

variable {host : Host}

/-- Each candidate at a known place is asked for once. -/
theorem IsPlain.calls_pullsFrom (plain : host.IsPlain) {route : Route}
    (positional : route.isPositional = true) (offset left : Nat) (session : Session) :
    ((Walk.pullsFrom host.directView route offset left).after session).calls =
      session.calls + left := by
  induction left generalizing offset session with
  | zero => rfl
  | succ left hypothesis =>
      obtain ⟨parent, index, look⟩ := Route.exists_look_eq positional host.directView offset
      have asked : ∀ session : Session,
          ((host.directView.child parent index).after session).calls = session.calls + 1 := by
        intro session
        change ((host.readChild parent index).after session).calls = _
        simp only [readChild, plain.noHoles]
        rfl
      rw [Walk.pullsFrom, look, bind_assoc, after_bind]
      cases (host.directView.child parent index).answer session with
      | none =>
          simp only [Route.tried, pure_bind, after_bind, after_pure, hypothesis, asked]
          omega
      | some child =>
          simp only [Route.tried, pure_bind, after_bind, after_pure, hypothesis, asked]
          omega

/-- No more questions are asked for the candidates than their window has offsets, where they
are at known places. -/
theorem IsPlain.calls_toList (plain : host.IsPlain) {window : Window} {walk : Walk}
    (direct : walk.IsDirect window) (session : Session) :
    ∀ max ∈ window.max, ((walk.toList host.directView).after session).calls ≤
      session.calls + (max.toNat - window.min.toNat + 1) := by
  intro max bounded
  rw [Walk.toList_eq_pulls, after_bind, after_pure, Walk.pulls]
  rcases direct with nothing | ⟨positional, few⟩
  · rw [nothing]
    exact Nat.le_add_right _ _
  · rw [plain.calls_pullsFrom positional]
    exact Nat.add_le_add_left (few max bounded) _

end Host

end TreeSelector

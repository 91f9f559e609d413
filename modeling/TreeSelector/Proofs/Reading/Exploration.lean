import TreeSelector.Proofs.Reading.Pace
import TreeSelector.Proofs.Tree.Family

/-!
# Walks below a node learn nothing of use

A walk below a node comes to every place of the tree once.  So as long as nothing but the
walk fills the cache, none of the children that it asks for is stored yet, and it keeps pace
with the walk of the direct view.
-/

namespace TreeSelector

open Reading (AsksAlike Paces)

namespace Host

variable {host : Host} {capacity : Nat} {top node : NodeId} {next : Nat} {left left' : Option Nat}
  {stack : List Frame} {met : List NodeId}

/-- A walk below `top` that stands at a stack of frames has met some nodes, none of them
before its parent, and what its frames have yet to visit is not among them. -/
structure Explored (host : Host) (top : NodeId) (stack : List Frame) (met : List NodeId) :
    Prop where
  apart : (stack.map Frame.node).Nodup
  opened : ∀ frame ∈ stack, frame.node ∈ met
  ahead : ∀ frame ∈ stack, ∀ index child, frame.next ≤ index →
    host.child frame.node index = .ok (some child) → child ∉ met
  descended : ∀ node ∈ met, node = top ∨
    ∃ parent ∈ met, ∃ index, host.child parent index = .ok (some node)
  below : ∀ node ∈ met, top ≤ node

namespace Explored

theorem begin (treelike : host.IsTreelike) (top : NodeId) :
    host.Explored top [.unopened top] [top] where
  apart := List.pairwise_singleton _ top
  opened := by
    intro frame member
    rw [List.mem_singleton.mp member]
    exact List.mem_singleton_self top
  ahead := by
    intro frame member index child _ produced same
    obtain rfl := List.mem_singleton.mp member
    obtain rfl := List.mem_singleton.mp same
    exact Nat.lt_irrefl _ (treelike.lt_child produced)
  descended := fun node member => .inl (List.mem_singleton.mp member)
  below := fun node member => Nat.le_of_eq (List.mem_singleton.mp member).symm

/-- A frame that has nothing left is dropped. -/
theorem drop {frame : Frame} (explored : host.Explored top (frame :: stack) met) :
    host.Explored top stack met where
  apart := (List.nodup_cons.mp explored.apart).2
  opened := fun other member => explored.opened other (List.mem_cons_of_mem _ member)
  ahead := fun other member => explored.ahead other (List.mem_cons_of_mem _ member)
  descended := explored.descended
  below := explored.below

/-- A place at which no child is produced is passed over. -/
theorem pass (explored : host.Explored top (⟨node, next, left⟩ :: stack) met) :
    host.Explored top (⟨node, next + 1, left'⟩ :: stack) met where
  apart := explored.apart
  opened := by
    intro frame member
    rcases List.mem_cons.mp member with rfl | later
    · exact explored.opened ⟨node, next, left⟩ List.mem_cons_self
    · exact explored.opened frame (List.mem_cons_of_mem _ later)
  ahead := by
    intro frame member index child after
    rcases List.mem_cons.mp member with rfl | later
    · exact explored.ahead ⟨node, next, left⟩ List.mem_cons_self index child
        (Nat.le_of_succ_le after)
    · exact explored.ahead frame (List.mem_cons_of_mem _ later) index child after
  descended := explored.descended
  below := explored.below

/-- The next child of the first frame was not met before. -/
theorem not_mem (explored : host.Explored top (⟨node, next, left⟩ :: stack) met)
    {child : NodeId} (produced : host.child node next = .ok (some child)) : child ∉ met :=
  explored.ahead _ List.mem_cons_self next child (Nat.le_refl next) produced

/-- No child of a node that was not met has been met, unless the walk began there. -/
theorem child_not_mem (treelike : host.IsTreelike) (explored : host.Explored top stack met)
    {parent child : NodeId} {index : Nat} (produced : host.child parent index = .ok (some child))
    (unmet : parent ∉ met) (after : top < child) : child ∉ met := by
  intro member
  rcases explored.descended child member with rfl | ⟨parent', member', index', produced'⟩
  · exact Nat.lt_irrefl _ after
  · rw [(treelike.place_unique produced produced').1] at unmet
    exact unmet member'

/-- The next child of the first frame is met, and opened. -/
theorem enter (treelike : host.IsTreelike)
    (explored : host.Explored top (⟨node, next, left⟩ :: stack) met) {child : NodeId}
    (produced : host.child node next = .ok (some child)) :
    host.Explored top (.unopened child :: ⟨node, next + 1, left'⟩ :: stack) (child :: met) := by
  have unmet := explored.not_mem produced
  have passed : host.Explored top (⟨node, next + 1, left'⟩ :: stack) met := explored.pass
  have opened : node ∈ met := explored.opened _ List.mem_cons_self
  have after : top < child :=
    Nat.lt_of_le_of_lt (explored.below node opened) (treelike.lt_child produced)
  constructor
  case apart =>
    refine List.nodup_cons.mpr ⟨fun member => ?_, passed.apart⟩
    obtain ⟨frame, member, same⟩ := List.mem_map.mp member
    have again := passed.opened frame member
    rw [same] at again
    exact unmet again
  case opened =>
    intro frame member
    rcases List.mem_cons.mp member with rfl | later
    · exact List.mem_cons_self
    · exact List.mem_cons_of_mem _ (passed.opened frame later)
  case ahead =>
    -- what the new frame has to visit is below the child; what the others have to visit is
    -- at another place, since a child has one place only
    intro frame member index child' later produced'
    rcases List.mem_cons.mp member with rfl | older
    · have above : child < child' := treelike.lt_child produced'
      exact List.not_mem_cons_of_ne_of_not_mem (Nat.ne_of_lt above).symm
        (explored.child_not_mem treelike produced' unmet (Nat.lt_trans after above))
    · refine List.not_mem_cons_of_ne_of_not_mem ?_
        (passed.ahead frame older index child' later produced')
      rintro rfl
      obtain ⟨same, same'⟩ := treelike.place_unique produced' produced
      rcases List.mem_cons.mp older with rfl | beneath
      · exact absurd later (Nat.not_le_of_lt (same' ▸ Nat.lt_succ_self next))
      · exact (List.nodup_cons.mp explored.apart).1 (List.mem_map.mpr ⟨frame, beneath, same⟩)
  case descended =>
    intro other member
    rcases List.mem_cons.mp member with rfl | member
    · exact .inr ⟨node, List.mem_cons_of_mem _ opened, next, produced⟩
    · refine (explored.descended other member).imp_right ?_
      rintro ⟨parent, member', listed⟩
      exact ⟨parent, List.mem_cons_of_mem _ member', listed⟩
  case below =>
    intro other member
    rcases List.mem_cons.mp member with rfl | member
    · exact Nat.le_of_lt after
    · exact explored.below other member

end Explored

/-- The cache knows of no children but those that a walk has met. -/
def Exploring (host : Host) (capacity : Nat) (top : NodeId) (stack : List Frame)
    (cache : NodeCache NodeId) : Prop :=
  ∃ met, host.Explored top stack met ∧ cache.children.Knows capacity fun place child =>
    host.child place.1 place.2 = .ok (some child) ∧ child ∈ met

namespace Exploring

theorem begin (treelike : host.IsTreelike) (top : NodeId) :
    host.Exploring capacity top [.unopened top] (.empty capacity) :=
  ⟨[top], .begin treelike top, Lru.knows_empty⟩

variable {cache : NodeCache NodeId}

theorem drop {frame : Frame} (exploring : host.Exploring capacity top (frame :: stack) cache) :
    host.Exploring capacity top stack cache := by
  obtain ⟨met, explored, knows⟩ := exploring
  exact ⟨met, explored.drop, knows⟩

theorem pass (exploring : host.Exploring capacity top (⟨node, next, left⟩ :: stack) cache) :
    host.Exploring capacity top (⟨node, next + 1, left'⟩ :: stack) cache := by
  obtain ⟨met, explored, knows⟩ := exploring
  exact ⟨met, explored.pass, knows⟩

theorem enter (treelike : host.IsTreelike)
    (exploring : host.Exploring capacity top (⟨node, next, left⟩ :: stack) cache)
    {child : NodeId} (produced : host.child node next = .ok (some child)) :
    host.Exploring capacity top (.unopened child :: ⟨node, next + 1, left'⟩ :: stack)
      (cache.insertChild node next child) := by
  obtain ⟨met, explored, knows⟩ := exploring
  have more := knows.mono fun place child' told =>
    And.intro told.1 (List.mem_cons_of_mem child told.2)
  exact ⟨child :: met, explored.enter treelike produced,
    more.insert ⟨produced, List.mem_cons_self⟩⟩

/-- What the first frame asks for next is not stored. -/
theorem missed (exploring : host.Exploring capacity top (⟨node, next, left⟩ :: stack) cache) :
    cache.child? node next = (none, cache) := by
  obtain ⟨met, explored, knows⟩ := exploring
  have unknown : cache.children.get? (node, next) = (none, cache.children) :=
    knows.missed fun child told => explored.not_mem told.1 told.2
  rw [NodeCache.child?, unknown]

end Exploring

/-- Where a walk below a node stands, with what is stored then. -/
def RouteExplores (host : Host) (capacity : Nat) (top : NodeId) :
    Route → NodeCache NodeId → Prop
  | .below stack => host.Exploring capacity top stack
  | _ => fun _ => False

section Walks

variable (plain : host.IsPlain) (treelike : host.IsTreelike)

theorem remaining_asksAlike (frame : Frame) :
    AsksAlike (frame.remaining host.rememberingView) (frame.remaining host.directView) := by
  unfold Frame.remaining
  split
  · exact .pure _
  · exact (readChildCount_asksAlike _).map _

include plain treelike

/-- The next place of the first frame is looked at, and its child is opened if there is one. -/
theorem IsPlain.nextChild_paces (node : NodeId) (next : Nat) (left left' : Option Nat) :
    Paces (host.Exploring capacity top (⟨node, next, left⟩ :: stack))
      (fun found => host.Exploring capacity top
        (found.toList.map .unopened ++ ⟨node, next + 1, left'⟩ :: stack))
      (host.recallChild node next) (host.readChild node next) :=
  plain.recallChild_paces (fun _ exploring => exploring.missed)
    (fun _ exploring => exploring.pass)
    (fun _ _ produced exploring => exploring.enter treelike produced)

theorem IsPlain.firstChild_paces (node : NodeId) (next count : Nat) (left : Option Nat) :
    Paces (host.Exploring capacity top (⟨node, next, left⟩ :: stack))
      (fun found => host.Exploring capacity top
        (found.elim stack fun below => .unopened below.1 :: below.2 :: stack))
      (Frame.firstChild host.rememberingView node next count)
      (Frame.firstChild host.directView node next count) := by
  -- `left` is what the frame says of its own rest; the walk goes by `count`
  induction count generalizing next left with
  | zero => exact .pure fun cache exploring => exploring.drop
  | succ count hypothesis =>
      refine (plain.nextChild_paces treelike node next left (some count)).bind fun found => ?_
      cases found with
      | none => exact hypothesis (next + 1) (some count)
      | some child => exact .pure fun cache exploring => exploring

theorem IsPlain.descend_paces (stack : List Frame) :
    Paces (host.Exploring capacity top stack)
      (fun found cache => ∀ below ∈ found, host.Exploring capacity top below.2 cache)
      (Route.descend host.rememberingView stack) (Route.descend host.directView stack) := by
  induction stack with
  | nil => exact .pure fun _ _ => nofun
  | cons frame stack hypothesis =>
      refine (remaining_asksAlike frame _).bind fun count => ?_
      refine (plain.firstChild_paces treelike frame.node frame.next count frame.left).bind
        fun found => ?_
      cases found with
      | none => exact hypothesis
      | some found =>
          refine .pure fun cache exploring => ?_
          rintro _ ⟨⟩
          exact exploring

theorem IsPlain.look_paces (offset : Nat) (route : Route) :
    Paces (host.RouteExplores capacity top route)
      (fun stop cache => ∀ route ∈ stop.onward,
        host.RouteExplores capacity top route cache)
      (route.look host.rememberingView offset) (route.look host.directView offset) := by
  cases route with
  | below stack =>
      refine (plain.descend_paces treelike stack).bind fun found => ?_
      cases found with
      | none => exact .pure fun _ _ => nofun
      | some found =>
          refine .pure fun cache exploring => ?_
          rintro _ ⟨⟩
          exact exploring found rfl
  | forward | backward | upward | children => exact fun _ _ impossible => impossible.elim

theorem IsPlain.pull_paces (lower : Nat) (route : Route) (offset left : Nat) :
    Paces (host.RouteExplores capacity top route)
      (fun found cache => ∀ next ∈ found, host.RouteExplores capacity top next.2.route cache)
      (Walk.pull host.rememberingView lower route offset left)
      (Walk.pull host.directView lower route offset left) := by
  induction left generalizing route offset with
  | zero => exact .pure fun _ _ => nofun
  | succ left hypothesis =>
      refine (plain.look_paces treelike offset route).bind fun stop => ?_
      cases stop with
      | ended => exact .pure fun _ _ => nofun
      | skipped route =>
          exact (hypothesis route (offset + 1)).mono (fun cache onwards => onwards route rfl)
            fun _ _ learned => learned
      | reached node route =>
          dsimp only
          split
          · exact (hypothesis route (offset + 1)).mono (fun cache onwards => onwards route rfl)
              fun _ _ learned => learned
          · refine .pure fun cache onwards => ?_
            rintro _ ⟨⟩
            exact onwards route rfl

variable {α : Type} {test test' : NodeId → Reading (Option α)}
  (tests : ∀ node, AsksAlike (test node) (test' node))

include tests

theorem IsPlain.searchUpTo_paces (count : Nat) (walk : Walk) :
    Paces (host.RouteExplores capacity top walk.route) (fun _ _ => True)
      (Walk.searchUpTo host.rememberingView test count walk)
      (Walk.searchUpTo host.directView test' count walk) := by
  induction count generalizing walk with
  | zero => exact .pure fun _ _ => trivial
  | succ count hypothesis =>
      refine (plain.pull_paces treelike walk.lower walk.route walk.offset walk.left).bind
        fun found => ?_
      cases found with
      | none => exact .pure fun _ _ => trivial
      | some found =>
          refine (tests found.1 _).bind fun answer => ?_
          cases answer with
          | none =>
              exact (hypothesis found.2).mono (fun cache onwards => onwards found rfl)
                fun _ _ learned => learned
          | some answer => exact .pure fun _ _ => trivial

theorem IsPlain.collectUpTo_paces (count : Nat) (walk : Walk) :
    Paces (host.RouteExplores capacity top walk.route) (fun _ _ => True)
      (Walk.collectUpTo host.rememberingView test count walk)
      (Walk.collectUpTo host.directView test' count walk) := by
  induction count generalizing walk with
  | zero => exact .pure fun _ _ => trivial
  | succ count hypothesis =>
      refine (plain.pull_paces treelike walk.lower walk.route walk.offset walk.left).bind
        fun found => ?_
      cases found with
      | none => exact .pure fun _ _ => trivial
      | some found =>
          have onward := (hypothesis found.2).mono
            (fun cache (onwards : ∀ next ∈ some found,
              host.RouteExplores capacity top next.2.route cache) => onwards found rfl)
            fun _ _ learned => learned
          refine (tests found.1 _).bind fun answer => ?_
          cases answer with
          | none => exact onward
          | some answer => exact onward.map _

end Walks

end Host

end TreeSelector

import TreeSelector.Proofs.Language.Names
import TreeSelector.Proofs.Reading.Follows

/-!
# What a reading asks of a view

Two views may agree on some of the questions only.  What is computed through them is still
the same as long as it stays within these: an operand by the names that occur in it, a
walk by the places that it has yet to visit, a chain by its names and connectors.
-/

namespace TreeSelector

/-- What may be asked of a view besides attributes, the number of the children of a node,
and the children that a walk visits. -/
structure Scope where
  /-- Parents, positions and depths. -/
  upward : Bool
  /-- Children beyond those that a walk visits. -/
  far : Bool

namespace Scope

def everything : Scope := ⟨true, true⟩

/-- Whether the child at an index may be asked for. -/
def Covers (scope : Scope) (index : Nat) : Prop := scope.far = true ∨ index < maxChildren

theorem Covers.of_le {scope : Scope} {index index' : Nat} (covers : scope.Covers index')
    (before : index ≤ index') : scope.Covers index :=
  covers.imp_right (Nat.lt_of_le_of_lt before)

/-- Whether a name may be asked by. -/
def permits (scope : Scope) : Symbol → Bool
  | .parent | .index | .depth => scope.upward
  | .getChild => scope.far
  | _ => true

/-- Whether a connector may be walked over. -/
def leadsOver (scope : Scope) : Connector → Bool
  | .child | .descendant => true
  | .beforeBrother | .afterBrother | .ancestor => scope.upward

/-- Whether all names of the vocabulary among some names may be asked by. -/
def Permits (scope : Scope) (names : List Name) : Prop :=
  ∀ name ∈ names, ∀ symbol, name.symbol? = some symbol → scope.permits symbol = true

variable {scope : Scope} {names names' : List Name}

theorem Permits.of_append (permits : scope.Permits (names ++ names')) :
    scope.Permits names ∧ scope.Permits names' :=
  ⟨fun name member => permits name (List.mem_append_left _ member),
    fun name member => permits name (List.mem_append_right _ member)⟩

theorem Permits.of_cons {name : Name} (permits : scope.Permits (name :: names)) :
    (∀ symbol, name.symbol? = some symbol → scope.permits symbol = true) ∧
      scope.Permits names :=
  ⟨permits name List.mem_cons_self,
    fun other member => permits other (List.mem_cons_of_mem _ member)⟩

theorem permits_everything (symbol : Symbol) : everything.permits symbol = true := by
  cases symbol <;> rfl

theorem leadsOver_everything (connector : Connector) :
    everything.leadsOver connector = true := by
  cases connector <;> rfl

end Scope

/-- The children that a frame has yet to visit may be asked for. -/
def Frame.StaysWithin (scope : Scope) (frame : Frame) : Prop :=
  ∀ step < frame.left.getD maxChildren, scope.Covers (frame.next + step)

theorem Frame.unopened_staysWithin (scope : Scope) (node : NodeId) :
    (unopened node).StaysWithin scope :=
  fun step inside => .inr (by simpa [unopened] using inside)

/-- What a route looks at from an offset on may be asked for, as long as no more than `left`
offsets remain. -/
def Route.StaysWithin (scope : Scope) (offset left : Nat) : Route → Prop
  | .forward _ origin => ∀ step < left, scope.Covers (origin + 1 + (offset + step))
  | .backward _ origin => ∀ step < left, scope.Covers (origin - (1 + (offset + step)))
  | .children _ => ∀ step < left, scope.Covers (offset + step)
  | .upward _ => scope.upward = true
  | .below stack => ∀ frame ∈ stack, frame.StaysWithin scope

/-- What may be asked at an offset may still be asked at the next one. -/
theorem Route.StaysWithin.next {scope : Scope} {offset left : Nat} {route : Route}
    (within : route.StaysWithin scope offset (left + 1)) :
    route.StaysWithin scope (offset + 1) left := by
  have later : ∀ step < left, step + 1 < left + 1 ∧ offset + (step + 1) = offset + 1 + step :=
    fun step inside => ⟨by omega, by omega⟩
  cases route with
  | forward | backward | children =>
      intro step inside
      obtain ⟨inside, same⟩ := later step inside
      rw [← same]
      exact within (step + 1) inside
  | upward | below => exact within

/-- A walk over known places stays below their number. -/
theorem Walk.offset_positional_add_lt {window : Window} {route : Route} {count step : Nat}
    (inside : step < (positional window route count).left) :
    (positional window route count).offset + step < count := by
  unfold positional room at inside ⊢
  split at inside <;> dsimp only at inside ⊢ <;> omega

def Walk.StaysWithin (scope : Scope) (walk : Walk) : Prop :=
  walk.route.StaysWithin scope walk.offset walk.left

/-- A chain asks by its names and walks over its connectors. -/
structure Chain.StaysWithin (scope : Scope) (chain : Chain) : Prop where
  names : scope.Permits chain.names
  connectors : ∀ connector ∈ chain.connectors, scope.leadsOver connector = true

namespace Chain.StaysWithin

variable {scope : Scope} {segment : Segment} {connector : Connector} {rest : Chain}

theorem predicate_last (within : (last segment).StaysWithin scope) :
    scope.Permits segment.predicate.names := by
  rw [← names_last]
  exact within.names

theorem predicate_link (within : (link segment connector rest).StaysWithin scope) :
    scope.Permits segment.predicate.names := by
  have permits := within.names
  rw [names_link] at permits
  exact permits.of_append.1

theorem connector_link (within : (link segment connector rest).StaysWithin scope) :
    scope.leadsOver connector = true :=
  within.connectors connector List.mem_cons_self

theorem rest_link (within : (link segment connector rest).StaysWithin scope) :
    rest.StaysWithin scope where
  names := by
    have permits := within.names
    rw [names_link] at permits
    exact permits.of_append.2
  connectors := fun other member => within.connectors other (List.mem_cons_of_mem _ member)

end Chain.StaysWithin

section Everything

theorem Scope.covers_everything (index : Nat) : everything.Covers index := .inl rfl

theorem Frame.staysWithin_everything (frame : Frame) : frame.StaysWithin .everything :=
  fun _ _ => .inl rfl

theorem Walk.staysWithin_everything (walk : Walk) : walk.StaysWithin .everything := by
  rcases walk with ⟨_ | _ | _ | _ | _, _, _, _⟩
  case upward => exact rfl
  case below => exact fun frame _ => frame.staysWithin_everything
  all_goals exact fun _ _ => .inl rfl

theorem Scope.permits_names_everything (names : List Name) : everything.Permits names :=
  fun _ _ symbol _ => permits_everything symbol

theorem Chain.staysWithin_everything (chain : Chain) : chain.StaysWithin .everything where
  names := Scope.permits_names_everything _
  connectors := fun connector _ => Scope.leadsOver_everything connector

end Everything

namespace Reading

variable {α β : Type} {kept : Session → Prop}

/-- As `Follows`, and whatever is answered satisfies `holds`. -/
def FollowsTo (kept : Session → Prop) (holds : α → Prop) (reading reference : Reading α) :
    Prop :=
  ∀ session session', kept session →
    reading.answer session = reference.answer session' ∧ kept (reading.after session) ∧
      holds (reading.answer session)

theorem Follows.to {holds : α → Prop} {reading reference : Reading α}
    (follows : Follows kept reading reference) (always : ∀ value, holds value) :
    FollowsTo kept holds reading reference := by
  intro session session' keeps
  obtain ⟨same, keepsThen⟩ := follows session session' keeps
  exact ⟨same, keepsThen, always _⟩

namespace FollowsTo

variable {holds : α → Prop} {holds' : β → Prop}

theorem follows {reading reference : Reading α}
    (follows : FollowsTo kept holds reading reference) : Follows kept reading reference := by
  intro session session' keeps
  obtain ⟨same, keepsThen, _⟩ := follows session session' keeps
  exact ⟨same, keepsThen⟩

theorem pure {value : α} (satisfied : holds value) :
    FollowsTo kept holds (Pure.pure value) (Pure.pure value) :=
  fun _ _ keeps => ⟨rfl, keeps, satisfied⟩

theorem bind {reading reference : Reading α} {next next' : α → Reading β}
    (first : FollowsTo kept holds reading reference)
    (second : ∀ value, holds value → FollowsTo kept holds' (next value) (next' value)) :
    FollowsTo kept holds' (reading >>= next) (reference >>= next') := by
  intro session session' keeps
  obtain ⟨same, keepsThen, satisfied⟩ := first session session' keeps
  rw [answer_bind, answer_bind, after_bind, ← same]
  exact second _ satisfied _ _ keepsThen

theorem bindFollows {reading reference : Reading α} {next next' : α → Reading β}
    (first : FollowsTo kept holds reading reference)
    (second : ∀ value, holds value → Follows kept (next value) (next' value)) :
    Follows kept (reading >>= next) (reference >>= next') := by
  refine (first.bind fun value satisfied => ?_ : FollowsTo kept (fun _ => True) _ _).follows
  exact (second value satisfied).to fun _ => trivial

end FollowsTo

theorem Follows.bindTo {holds : β → Prop} {reading reference : Reading α}
    {next next' : α → Reading β} (first : Follows kept reading reference)
    (second : ∀ value, FollowsTo kept holds (next value) (next' value)) :
    FollowsTo kept holds (reading >>= next) (reference >>= next') :=
  FollowsTo.bind (first.to fun _ => trivial : FollowsTo kept (fun _ => True) _ _)
    fun value _ => second value

end Reading

/-- A view whose primitive readings follow those of a reference as far as a scope goes;
positions lead to children that may be asked for. -/
structure View.FollowsWithin (kept : Session → Prop) (scope : Scope) (view reference : View) :
    Prop where
  root : Reading.Follows kept view.root reference.root
  parent : scope.upward = true → ∀ node,
    Reading.Follows kept (view.parent node) (reference.parent node)
  child : ∀ node index, scope.Covers index →
    Reading.Follows kept (view.child node index) (reference.child node index)
  childCount : ∀ node,
    Reading.Follows kept (view.childCount node) (reference.childCount node)
  index : scope.upward = true → ∀ node, Reading.FollowsTo kept
    (fun index => ∀ position ∈ index, scope.Covers position)
    (view.index node) (reference.index node)
  depth : scope.upward = true → ∀ node,
    Reading.Follows kept (view.depth node) (reference.depth node)
  attributeValue : ∀ node attr,
    Reading.Follows kept (view.attributeValue node attr) (reference.attributeValue node attr)
  lookUp : ∀ node keys,
    Reading.Follows kept (view.lookUp node keys) (reference.lookUp node keys)
  heightBound : view.heightBound = reference.heightBound

theorem View.Follows.within {kept : Session → Prop} {view reference : View}
    (follows : view.Follows kept reference) :
    view.FollowsWithin kept .everything reference where
  root := follows.root
  parent := fun _ => follows.parent
  child := fun node index _ => follows.child node index
  childCount := follows.childCount
  index := fun _ node => (follows.index node).to fun _ _ _ => .inl rfl
  depth := fun _ => follows.depth
  attributeValue := follows.attributeValue
  lookUp := follows.lookUp
  heightBound := follows.heightBound

end TreeSelector

import TreeSelector.Proofs.Cache.Knowledge
import TreeSelector.Proofs.Reading.Direct
import TreeSelector.Proofs.Reading.Saves
import TreeSelector.Proofs.Tree.Family
import TreeSelector.Reading.Remembering

/-!
# What the remembering view recalls

On a host that answers consistently, what the remembering view recalls of parents,
children and positions is what the host would answer, and so each of its readings gives
the answer of the direct view and saves questions.  Positions are the exception: the
direct view finds a node only among the children that a walk visits, so a position
beyond these must not be learned.
-/

namespace TreeSelector

namespace Reading

variable {α β : Type} {capacity : Nat} {facts : TreeFacts NodeId}

/-- Whatever the cache of a session tells about a tree is the case. -/
def Recalls (capacity : Nat) (facts : TreeFacts NodeId) (session : Session) : Prop :=
  session.cache.Knows capacity facts

theorem recalls_fresh : Recalls capacity facts (.fresh capacity) := NodeCache.knows_empty

namespace Saves

theorem ask (answer : Except HostError α) :
    Saves (Recalls capacity facts) (Reading.ask answer) (Reading.ask answer) := by
  intro session session' recalls
  refine ⟨rfl, recalls, ?_⟩
  have first : ((Reading.ask answer).after session).calls = session.calls + 1 := rfl
  have second : ((Reading.ask answer).after session').calls = session'.calls + 1 := rfl
  omega

/-- What was found out by asking may be put to use before it is answered. -/
theorem learn {kept : Session → Prop} {asked : Reading α} {value : α}
    (same : Saves kept asked asked) (gives : Gives asked value) {next next' : α → Reading β}
    (second : Saves kept (next value) (next' value)) :
    Saves kept (asked >>= next) (asked >>= next') := by
  intro session session' holds
  obtain ⟨_, holdsThen, fewer⟩ := same session session' holds
  obtain ⟨sameThen, holdsLast, fewerThen⟩ := second (asked.after session)
    (asked.after session') holdsThen
  rw [answer_bind, answer_bind, after_bind, after_bind, gives, gives]
  refine ⟨sameThen, holdsLast, ?_⟩
  omega

theorem get {kept : Session → Prop} {next : Session → Reading α} {reference : Reading α}
    (each : ∀ session, kept session → Saves kept (next session) reference) :
    Saves kept (MonadState.get >>= next) reference :=
  fun session session' holds => each session holds session session' holds

/-- Storing what is the case changes no answer. -/
theorem remember {store : NodeCache NodeId → NodeCache NodeId} (value : α)
    (stores : ∀ cache, cache.Knows capacity facts → (store cache).Knows capacity facts) :
    Saves (Recalls capacity facts) (do Reading.remember store; return value)
      (Pure.pure value) :=
  fun _ _ recalls => ⟨rfl, stores _ recalls, Nat.le_refl _⟩

/-- A reading that asks only for what is not recalled saves what it asks for. -/
theorem bindConsult {look : NodeCache NodeId → Option α × NodeCache NodeId}
    {next : Option α → Reading (Option α)} {reference : Reading (Option α)}
    (looks : ∀ cache, cache.Knows capacity facts → (look cache).2.Knows capacity facts)
    (answers : ∀ value, next (some value) = Pure.pure (some value))
    (found : ∀ cache value, cache.Knows capacity facts → (look cache).1 = some value →
      Saves (Recalls capacity facts) (Pure.pure (some value)) reference)
    (missed : Saves (Recalls capacity facts) (next none) reference) :
    Saves (Recalls capacity facts) (consult look >>= next) reference := by
  intro session session' recalls
  have consulted : (consult look).answer session = (look session.cache).1 := rfl
  have kept : Recalls capacity facts ((consult look).after session) := looks _ recalls
  have unasked : ((consult look).after session).calls = session.calls := rfl
  rw [answer_bind, after_bind, consulted, ← unasked]
  cases recalled : (look session.cache).1 with
  | none => exact missed _ session' kept
  | some value =>
      rw [answers]
      exact found _ value recalls recalled _ session' kept

end Saves

end Reading

namespace Host

open Reading (Gives Grows Recalls gives_ask)

/-- What is the case about the tree of a host, as far as the host tells: positions are
told only of the children that a walk visits. -/
def facts (host : Host) : TreeFacts NodeId where
  child parent index child := host.child parent index = .ok (some child)
  index child index := index < maxChildren ∧ ∃ parent, host.child parent index = .ok (some child)
  parent child parent := host.parent child = .ok (some parent)
  root node := host.root = .ok node

variable {host : Host} {capacity : Nat}

section Unchanged

/-! Questions that are asked every time. -/

variable {facts : TreeFacts NodeId}

theorem readRoot_saves :
    Reading.Saves (Recalls capacity facts) host.readRoot host.readRoot :=
  .ite (.pure none) (.ask _)

theorem readChild_saves (node : NodeId) (index : Nat) :
    Reading.Saves (Recalls capacity facts) (host.readChild node index)
      (host.readChild node index) :=
  .ite (.pure none) ((Reading.Saves.ask _).map _)

theorem readChildCount_saves (node : NodeId) :
    Reading.Saves (Recalls capacity facts) (host.readChildCount node)
      (host.readChildCount node) :=
  (Reading.Saves.ask _).map _

theorem readAttribute_saves (node : NodeId) (attr : Attribute) :
    Reading.Saves (Recalls capacity facts) (host.readAttribute node attr)
      (host.readAttribute node attr) :=
  .ite (fun _ _ recalls => ⟨rfl, recalls, Nat.le_refl _⟩) ((Reading.Saves.ask _).map _)

theorem readIndex_saves (node : NodeId) (keys : List IndexKey) :
    Reading.Saves (Recalls capacity facts) (host.readIndex node keys)
      (host.readIndex node keys) :=
  .ite (.ask _) (.pure none)

end Unchanged

section Growth

theorem grows_parent (node : NodeId) : Grows (host.directView.parent node) :=
  (Grows.ask _).map _

theorem grows_readChild (node : NodeId) (index : Nat) : Grows (host.readChild node index) := by
  unfold readChild
  split
  · exact .pure none
  · exact (Grows.ask _).map _

theorem grows_index (node : NodeId) : Grows (host.directView.index node) := by
  refine (host.grows_parent node).bind fun parent => ?_
  cases parent with
  | none => exact .pure _
  | some parent =>
      refine Grows.bind ((Grows.ask _).map _) fun count => ?_
      exact .findPosition (fun position => (host.grows_readChild parent position).map _) _ _

theorem grows_readRoot : Grows host.readRoot := by
  unfold readRoot
  split
  · exact .pure none
  · exact .ask _

end Growth

section Depths

theorem recallDepth_succ (room : Nat) (node : NodeId) :
    host.recallDepth (room + 1) node = host.recallParent node >>= fun parent =>
      parent.elim (pure 0) fun parent => do return (← host.recallDepth room parent) + 1 := by
  rw [recallDepth]
  congr 1
  funext parent
  cases parent <;> rfl

theorem climb_succ (room : Nat) (node : NodeId) :
    host.climb (room + 1) node = host.directView.parent node >>= fun parent =>
      parent.elim (pure 1) fun parent => do return (← host.climb room parent) + 1 := by
  have named : host.directView.parent node = do return (← host.readParent node).join := rfl
  rw [climb, named, bind_assoc]
  congr 1
  funext answer
  rw [pure_bind]
  cases answer.join <;> rfl

theorem depth_directView (node : NodeId) :
    host.directView.depth node = host.directView.parent node >>= fun parent =>
      parent.elim (pure 0) fun parent => host.climb maxDescendants parent := by
  unfold directView
  dsimp only
  congr 1
  funext parent
  cases parent <;> rfl

end Depths

section Recalling

variable (plain : host.IsPlain)

include plain

/-- A child is recalled as the host produces it; what is learned with it, its parent and
its position, has to be the case too. -/
theorem IsPlain.recallChild_saves {facts : TreeFacts NodeId} {node : NodeId} {index : Nat}
    (told : ∀ child, facts.child node index child →
      host.child node index = .ok (some child))
    (learned : ∀ child, host.child node index = .ok (some child) →
      facts.child node index child ∧ facts.index child index ∧ facts.parent child node) :
    Reading.Saves (Recalls capacity facts) (host.recallChild node index)
      (host.readChild node index) := by
  have gives := plain.gives_child node index
  refine Reading.Saves.bindConsult (fun _ knows => knows.child? node index) (fun _ => rfl) ?_ ?_
  · intro cache child knows found
    have produced := told child (knows.children.found found)
    rw [produced] at gives
    exact .of_gives gives (host.grows_readChild node index)
  · have asked : host.readChild node index = host.readChild node index >>= pure :=
      (bind_pure _).symm
    rw [asked]
    refine (readChild_saves node index).learn gives ?_
    rcases produced : host.child node index with error | _ | child
    · exact .pure none
    · exact .pure none
    · obtain ⟨isChild, isAt, isParent⟩ := learned child produced
      exact .remember _ fun _ knows => knows.insertChild isChild isAt isParent

/-- The root is recalled as the host has it. -/
theorem IsPlain.recallRoot_saves {facts : TreeFacts NodeId}
    (root_iff : ∀ node, facts.root node ↔ host.root = .ok node) :
    Reading.Saves (Recalls capacity facts) host.recallRoot host.readRoot := by
  have gives : Gives host.readRoot host.root.toOption := by
    unfold readRoot
    rw [plain.rooted]
    exact gives_ask host.root
  refine .get fun session recalls => ?_
  cases stored : session.cache.root with
  | some root =>
      rw [(root_iff root).mp (recalls.root root stored)] at gives
      exact .of_gives gives host.grows_readRoot
  | none =>
      have asked : host.readRoot = host.readRoot >>= pure := (bind_pure _).symm
      rw [asked]
      refine readRoot_saves.learn gives ?_
      cases answered : host.root with
      | error error => exact .pure none
      | ok root =>
          exact .remember _ fun _ knows => knows.setRoot ((root_iff root).mpr answered)

variable (consistent : host.IsConsistent)

include consistent

omit plain in
/-- A parent is recalled as the host has it; the root is known to have none. -/
theorem IsConsistent.recallParent_saves (node : NodeId) :
    Reading.Saves (Recalls capacity host.facts) (host.recallParent node)
      (host.directView.parent node) := by
  have gives : Gives (host.directView.parent node) (host.parent node).toOption.join :=
    (gives_ask _).map _
  refine Reading.Saves.bindConsult (fun _ knows => knows.parent? node) (fun _ => rfl) ?_ ?_
  · intro cache parent knows found
    have isParent : host.parent node = .ok (some parent) := knows.parents.found found
    rw [isParent] at gives
    exact .of_gives gives (host.grows_parent node)
  · refine .get fun session recalls => ?_
    split
    · rename_i isRoot
      have root := recalls.root node (by simpa [NodeCache.isRoot] using isRoot)
      rw [consistent.root_iff.mp root] at gives
      exact .of_gives gives (host.grows_parent node)
    · refine (Reading.Saves.ask _).learn (gives_ask _) ?_
      rcases answered : host.parent node with error | _ | parent
      · exact .pure none
      · exact .remember _ fun _ knows => knows.setRoot (consistent.root_iff.mpr answered)
      · exact .remember _ fun _ knows => knows.insertParent answered

/-- A child that a walk visits is recalled with its parent and its position. -/
theorem IsPlain.recallChild_saves_near {node : NodeId} {index : Nat}
    (near : ∀ child, host.child node index = .ok (some child) → index < maxChildren) :
    Reading.Saves (Recalls capacity host.facts) (host.recallChild node index)
      (host.readChild node index) :=
  plain.recallChild_saves (fun _ told => told) fun child produced =>
    ⟨produced, ⟨near child produced, node, produced⟩, consistent.parent_of_child produced⟩

/-- The direct view finds a node that a walk visits at its position. -/
theorem IsPlain.gives_index {node parent : NodeId} {index : Nat} (near : index < maxChildren)
    (produced : host.child parent index = .ok (some node)) :
    Gives (host.directView.index node) (some index) := by
  have isParent := consistent.parent_of_child produced
  have found : Gives (host.directView.parent node) (some parent) := by
    have gives : Gives (host.directView.parent node) (host.parent node).toOption.join :=
      (gives_ask _).map _
    rwa [isParent] at gives
  obtain ⟨entry, accessed, listed⟩ := child_eq_ok_iff.mp produced
  have counted : Gives (host.readChildCount parent) entry.children.size := by
    have gives : Gives (host.directView.childCount parent)
        ((host.childCount parent).toOption.getD 0) := gives_childCount parent
    have size : host.childCount parent = .ok entry.children.size := by
      unfold childCount
      rw [accessed]
      rfl
    rwa [size] at gives
  have inside : index < min entry.children.size maxChildren :=
    Nat.lt_min.mpr ⟨(Array.getElem?_eq_some_iff.mp listed).1, near⟩
  have tests : ∀ position, Gives
      (do return decide ((← host.readChild parent position) = some node))
      (decide ((host.child parent position).toOption.join = some node)) :=
    fun position => (plain.gives_child parent position).map _
  refine found.bind (counted.bind (.findPosition tests ?_ ?_ (by omega) (Nat.zero_le _)))
  · rw [produced]
    exact decide_eq_true rfl
  · intro earlier _ before
    refine decide_eq_false fun same => ?_
    have produced' : host.child parent earlier = .ok (some node) := by
      rcases answered : host.child parent earlier with error | _ | child
      · rw [answered] at same
        cases same
      · rw [answered] at same
        cases same
      · rw [answered] at same
        rw [Option.some.inj same]
    exact absurd (consistent.index_unique produced' produced) (Nat.ne_of_lt before)

/-- A position is recalled as the direct view finds it, and looking for it makes known the
positions of the siblings that were looked at. -/
theorem IsPlain.recallIndex_saves (node : NodeId) :
    Reading.Saves (Recalls capacity host.facts) (host.recallIndex node)
      (host.directView.index node) := by
  refine Reading.Saves.bindConsult (fun _ knows => knows.index? node) (fun _ => rfl) ?_ ?_
  · intro cache index knows found
    obtain ⟨near, parent, produced⟩ := knows.indices.found found
    exact .of_gives (plain.gives_index consistent near produced) (host.grows_index node)
  · refine (consistent.recallParent_saves node).bind fun parent => ?_
    cases parent with
    | none => exact .pure _
    | some parent =>
        refine (readChildCount_saves parent).bind fun count => ?_
        refine .findPosition fun position inside => ?_
        have near : position < maxChildren := by omega
        exact (plain.recallChild_saves_near consistent fun _ _ => near).map _

omit plain in
/-- Both views count no more ancestors than there is room for. -/
theorem IsConsistent.recallDepth_saves (room : Nat) (node : NodeId) :
    Reading.Saves (Recalls capacity host.facts)
      (do return (← host.recallDepth room node) + 1) (host.climb (room + 1) node) := by
  -- the direct view counts the node it starts from and so is one ahead
  induction room generalizing node with
  | zero =>
      have gives : Gives (host.climb 1 node) 1 := by
        refine (gives_ask _).bind ?_
        cases (host.parent node).toOption.join <;> exact .pure _
      have grows : Grows (host.climb 1 node) := by
        refine (Grows.ask _).bind fun answer => ?_
        cases answer.join <;> exact .pure _
      exact .of_gives gives grows
  | succ room hypothesis =>
      rw [recallDepth_succ, climb_succ, bind_assoc]
      refine (consistent.recallParent_saves node).bind fun parent => ?_
      cases parent with
      | none => exact .pure 1
      | some parent => exact (hypothesis parent).map _

omit plain in
theorem IsConsistent.depth_saves (node : NodeId) :
    Reading.Saves (Recalls capacity host.facts) (host.rememberingView.depth node)
      (host.directView.depth node) := by
  obtain ⟨room, positive⟩ : ∃ room, maxDescendants = room + 1 := ⟨4095, rfl⟩
  have remembered : host.rememberingView.depth node = host.recallDepth (room + 1) node :=
    congrArg (host.recallDepth · node) positive
  rw [remembered, recallDepth_succ, depth_directView, positive]
  refine (consistent.recallParent_saves node).bind fun parent => ?_
  cases parent with
  | none => exact .pure 0
  | some parent => exact consistent.recallDepth_saves room parent

end Recalling

end Host

end TreeSelector

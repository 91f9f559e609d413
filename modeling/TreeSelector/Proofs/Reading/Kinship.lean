import TreeSelector.Proofs.Matching.Parallels
import TreeSelector.Proofs.Reading.Coherence
import TreeSelector.Proofs.Reading.Converses

/-!
# Sessions that differ in the root alone

While nothing is detached, the root of a tree is always the same node.  So it makes no
difference to any answer whether a session has learned the root yet, and whatever is read in
two sessions that otherwise recall the same, they recall the same again.
-/

namespace TreeSelector

namespace Reading

variable {α β : Type} {capacity : Nat} {tree : Tree}

/-- Two sessions that recall the same of a tree, and nothing but what is the case, except that
one of them may know the root and the other one not. -/
structure Kin (capacity : Nat) (tree : Tree) (session session' : Session) : Prop where
  recalls : Recalls capacity tree.facts session
  recalls' : Recalls capacity tree.facts session'
  same : session'.cache = { session.cache with root := session'.cache.root }

namespace Kin

variable {session session' session'' : Session}

theorem refl (recalls : Recalls capacity tree.facts session) : Kin capacity tree session session :=
  ⟨recalls, recalls, rfl⟩

theorem symm (kin : Kin capacity tree session session') : Kin capacity tree session' session where
  recalls := kin.recalls'
  recalls' := kin.recalls
  same := by rw [kin.same]

theorem trans (kin : Kin capacity tree session session')
    (kin' : Kin capacity tree session' session'') : Kin capacity tree session session'' where
  recalls := kin.recalls
  recalls' := kin'.recalls'
  same := by rw [kin'.same, kin.same]

end Kin

/-- Readings that give the same answer in kindred sessions, and leave them kindred. -/
def Agree (capacity : Nat) (tree : Tree) (reading reference : Reading α) : Prop :=
  ∀ session session', Kin capacity tree session session' →
    reading.answer session = reference.answer session' ∧
      Kin capacity tree (reading.after session) (reference.after session')

/-- A reading that gives a value whatever is recalled, and from which nothing but the root can
be learned. -/
def Settles (capacity : Nat) (tree : Tree) (reading : Reading α) (value : α) : Prop :=
  ∀ session, Recalls capacity tree.facts session →
    reading.answer session = value ∧ Kin capacity tree session (reading.after session)

namespace Agree

theorem pure (value : α) : Agree capacity tree (Pure.pure value) (Pure.pure value) :=
  fun _ _ kin => ⟨rfl, kin⟩

theorem bind {reading reference : Reading α} {next next' : α → Reading β}
    (first : Agree capacity tree reading reference)
    (second : ∀ value, Agree capacity tree (next value) (next' value)) :
    Agree capacity tree (reading >>= next) (reference >>= next') := by
  intro session session' kin
  obtain ⟨same, kinThen⟩ := first session session' kin
  rw [answer_bind, answer_bind, after_bind, after_bind, ← same]
  exact second _ _ _ kinThen

end Agree

/-- To agree in kindred sessions is kept when readings are composed. -/
def Congruence.kindred (capacity : Nat) (tree : Tree) : Congruence where
  Relates := Agree capacity tree
  pure := .pure
  bind := .bind

namespace Agree

theorem map {reading reference : Reading α} (change : α → β)
    (first : Agree capacity tree reading reference) :
    Agree capacity tree (do return change (← reading)) (do return change (← reference)) :=
  first.bind fun value => pure (change value)

theorem ite {condition : Prop} [Decidable condition] {yes no yes' no' : Reading α}
    (first : Agree capacity tree yes yes') (second : Agree capacity tree no no') :
    Agree capacity tree (if condition then yes else no) (if condition then yes' else no') := by
  split
  · exact first
  · exact second

theorem findPosition {test : Nat → Reading Bool}
    (tests : ∀ position, Agree capacity tree (test position) (test position))
    (position count : Nat) :
    Agree capacity tree (Reading.findPosition test position count)
      (Reading.findPosition test position count) := by
  have relates : ∀ position,
    (Congruence.kindred capacity tree).Relates (test position) (test position) := tests
  exact Congruence.Relates.findPosition relates position count

theorem ask (answer : Except HostError α) :
    Agree capacity tree (Reading.ask answer) (Reading.ask answer) :=
  fun _ _ kin => ⟨rfl, kin.recalls, kin.recalls', kin.same⟩

theorem get {next : Session → Reading α}
    (each : ∀ session session', Kin capacity tree session session' →
      Agree capacity tree (next session) (next session')) :
    Agree capacity tree (MonadState.get >>= next) (MonadState.get >>= next) :=
  fun session session' kin => each session session' kin session session' kin

/-- What was found out by asking may be put to use before it is answered. -/
theorem learn {asked : Reading α} {value : α} (same : Agree capacity tree asked asked)
    (gives : Gives asked value) {next : α → Reading β}
    (second : Agree capacity tree (next value) (next value)) :
    Agree capacity tree (asked >>= next) (asked >>= next) := by
  intro session session' kin
  obtain ⟨_, kinThen⟩ := same session session' kin
  rw [answer_bind, answer_bind, after_bind, after_bind, gives, gives]
  exact second _ _ kinThen

/-- What is looked for elsewhere does not depend on the root. -/
theorem consult {look : NodeCache NodeId → Option α × NodeCache NodeId}
    (keeps : ∀ cache, cache.Knows capacity tree.facts →
      (look cache).2.Knows capacity tree.facts)
    (apart : ∀ cache root, look { cache with root } =
      ((look cache).1, { (look cache).2 with root })) :
    Agree capacity tree (Reading.consult look) (Reading.consult look) := by
  intro session session' kin
  have looked : look session'.cache = ((look session.cache).1,
      { (look session.cache).2 with root := session'.cache.root }) := by
    rw [kin.same]
    exact apart _ _
  refine ⟨(congrArg Prod.fst looked).symm, keeps _ kin.recalls, keeps _ kin.recalls', ?_⟩
  change (look session'.cache).2 =
    { (look session.cache).2 with root := (look session'.cache).2.root }
  rw [looked]

/-- What is stored elsewhere does not depend on the root. -/
theorem remember {store : NodeCache NodeId → NodeCache NodeId} (value : α)
    (keeps : ∀ cache, cache.Knows capacity tree.facts → (store cache).Knows capacity tree.facts)
    (apart : ∀ cache root, store { cache with root } = { store cache with root }) :
    Agree capacity tree (do Reading.remember store; return value)
      (do Reading.remember store; return value) := by
  intro session session' kin
  have stored : store session'.cache = { store session.cache with root := session'.cache.root } := by
    rw [kin.same]
    exact apart _ _
  refine ⟨rfl, keeps _ kin.recalls, keeps _ kin.recalls', ?_⟩
  change store session'.cache = { store session.cache with root := (store session'.cache).root }
  rw [stored]

end Agree

namespace Settles

theorem pure (value : α) : Settles capacity tree (Pure.pure value) value :=
  fun _ recalls => ⟨rfl, .refl recalls⟩

theorem bind {reading : Reading α} {value : α} {next : α → Reading β} {final : β}
    (first : Settles capacity tree reading value)
    (second : Settles capacity tree (next value) final) :
    Settles capacity tree (reading >>= next) final := by
  intro session recalls
  obtain ⟨same, kin⟩ := first session recalls
  obtain ⟨sameThen, kinThen⟩ := second _ kin.recalls'
  rw [answer_bind, after_bind, same]
  exact ⟨sameThen, kin.trans kinThen⟩

theorem ask (answer : Except HostError α) :
    Settles capacity tree (Reading.ask answer) answer.toOption :=
  fun _ recalls => ⟨rfl, recalls, recalls, rfl⟩

theorem get {next : Session → Reading α} {value : α}
    (each : ∀ session, Recalls capacity tree.facts session →
      Settles capacity tree (next session) value) :
    Settles capacity tree (MonadState.get >>= next) value :=
  fun session recalls => each session recalls session recalls

theorem consult {look : NodeCache NodeId → Option α × NodeCache NodeId}
    (missed : ∀ cache, cache.Knows capacity tree.facts → look cache = (none, cache)) :
    Settles capacity tree (Reading.consult look) none := by
  intro session recalls
  have looked := missed session.cache recalls
  have unchanged : (Reading.consult look).after session = session := by
    change { session with cache := (look session.cache).2 } = session
    rw [looked]
  rw [unchanged]
  exact ⟨congrArg Prod.fst looked, .refl recalls⟩

theorem agree {reading reference : Reading α} {value : α}
    (settles : Settles capacity tree reading value)
    (settles' : Settles capacity tree reference value) : Agree capacity tree reading reference := by
  intro session session' kin
  obtain ⟨same, kinThen⟩ := settles session kin.recalls
  obtain ⟨same', kinThen'⟩ := settles' session' kin.recalls'
  exact ⟨same.trans same'.symm, kinThen.symm.trans (kin.trans kinThen')⟩

/-- The root is installed without anything being forgotten. -/
theorem setRoot (value : α) :
    Settles capacity tree (do remember (·.setRoot 0); return value) value := by
  intro session recalls
  have kept : session.cache.setRoot 0 = { session.cache with root := some 0 } := by
    have unmoved : session.cache.root.any (· ≠ 0) = false := by
      cases stored : session.cache.root with
      | none => rfl
      | some root => exact decide_eq_false (not_not_intro (recalls.root root stored))
    unfold NodeCache.setRoot
    rw [unmoved]
    rfl
  have knows : (session.cache.setRoot 0).Knows capacity tree.facts := recalls.setRoot rfl
  refine ⟨rfl, recalls, knows, ?_⟩
  change session.cache.setRoot 0 = { session.cache with root := (session.cache.setRoot 0).root }
  rw [kept]

end Settles

end Reading

namespace Host

open Reading (Agree Settles gives_ask)

variable {capacity : Nat} {tree : Tree}

section Asking

variable {host : Host}

theorem readChild_agree (node : NodeId) (index : Nat) :
    Agree capacity tree (host.readChild node index) (host.readChild node index) :=
  .ite (.pure none) ((Agree.ask _).map _)

theorem readChildCount_agree (node : NodeId) :
    Agree capacity tree (host.readChildCount node) (host.readChildCount node) :=
  (Agree.ask _).map _

theorem readAttribute_agree (node : NodeId) (attr : Attribute) :
    Agree capacity tree (host.readAttribute node attr) (host.readAttribute node attr) :=
  .ite (fun _ _ kin => ⟨rfl, kin.recalls, kin.recalls', kin.same⟩) ((Agree.ask _).map _)

theorem readIndex_agree (node : NodeId) (keys : List IndexKey) :
    Agree capacity tree (host.readIndex node keys) (host.readIndex node keys) :=
  .ite (.ask _) (.pure none)

theorem searchIndex_agree {parentOf : NodeId → Reading (Option NodeId)}
    {childOf : NodeId → Nat → Reading (Option NodeId)}
    (parents : ∀ node, Agree capacity tree (parentOf node) (parentOf node))
    (children : ∀ node index, Agree capacity tree (childOf node index) (childOf node index))
    (node : NodeId) :
    Agree capacity tree (searchIndex parentOf childOf host.readChildCount node)
      (searchIndex parentOf childOf host.readChildCount node) := by
  refine (parents node).bind fun parent => ?_
  cases parent with
  | none => exact .pure _
  | some parent =>
      refine (readChildCount_agree parent).bind fun count => ?_
      exact .findPosition (fun position => (children parent position).map _) _ _

theorem climb_agree (room : Nat) (node : NodeId) :
    Agree capacity tree (host.climb room node) (host.climb room node) := by
  induction room generalizing node with
  | zero => exact .pure 0
  | succ room hypothesis =>
      refine (Agree.ask _).bind fun answer => ?_
      cases answer.join with
      | none => exact .pure 1
      | some parent => exact (hypothesis parent).map _

theorem directView_parallels :
    host.directView.Parallels (.kindred capacity tree) host.directView where
  evaluation :=
    { parent := fun _ _ => (Agree.ask _).map _
      child := fun _ => readChild_agree
      childCount := readChildCount_agree
      index := fun _ => searchIndex_agree (fun _ => (Agree.ask _).map _) readChild_agree
      depth := by
        intro _ node
        refine ((Agree.ask _).map _).bind fun parent => ?_
        cases parent with
        | none => exact .pure 0
        | some parent => exact climb_agree _ parent
      attributeValue := readAttribute_agree }
  lookUp := readIndex_agree
  heightBound := rfl

end Asking

section Recalling

variable {root : CapturedNode} {indexed : Bool}

theorem root_eq_zero : (serving root [] indexed).root = .ok 0 := by
  cases root
  rfl

theorem readRoot_settles :
    Settles capacity (Tree.ofCaptured root) (serving root [] indexed).readRoot (some 0) := by
  have asked : (serving root [] indexed).readRoot = Reading.ask (.ok 0) := by
    rw [← root_eq_zero]
    rfl
  rw [asked]
  exact .ask _

theorem recallRoot_settles :
    Settles capacity (Tree.ofCaptured root) (serving root [] indexed).recallRoot (some 0) := by
  refine .get fun session recalls => ?_
  cases stored : session.cache.root with
  | some top =>
      rw [recalls.root top stored]
      exact .pure _
  | none => exact readRoot_settles.bind (.setRoot _)

/-- The parent of the root is not stored, and asking for it tells of the root alone. -/
theorem recallParent_settles :
    Settles capacity (Tree.ofCaptured root) ((serving root [] indexed).recallParent 0) none := by
  have orphan : (serving root [] indexed).parent 0 = .ok none :=
    (serving_isConsistent root indexed).root_iff.mp root_eq_zero
  refine Settles.bind (.consult fun cache knows => (?_ : cache.parent? 0 = (none, cache)))
    (.get fun _ _ => ?_)
  · have missed : cache.parents.get? 0 = (none, cache.parents) := by
      refine knows.parents.missed ?_
      rintro parent ⟨entry, found, named⟩
      have answered : (serving root [] indexed).parent 0 = .ok entry.parent :=
        parent_of_entry found
      rw [orphan, named] at answered
      cases answered
    rw [NodeCache.parent?, missed]
  · split
    · exact .pure none
    · refine Settles.bind (.ask _) ?_
      rw [orphan]
      exact .setRoot none

theorem isRoot_eq_false {node : NodeId} (below : node ≠ 0) {cache : NodeCache NodeId}
    (knows : cache.Knows capacity (Tree.ofCaptured root).facts) : cache.isRoot node = false :=
  decide_eq_false fun stored => below (knows.root node stored)

theorem recallParent_agree (node : NodeId) :
    Agree capacity (Tree.ofCaptured root) ((serving root [] indexed).recallParent node)
      ((serving root [] indexed).recallParent node) := by
  by_cases top : node = 0
  · rw [top]
    exact recallParent_settles.agree recallParent_settles
  refine Agree.bind (.consult (fun _ knows => knows.parent? node) fun _ _ => rfl) fun found => ?_
  cases found with
  | some parent => exact .pure _
  | none =>
      refine .get fun session session' kin => ?_
      rw [isRoot_eq_false top kin.recalls, isRoot_eq_false top kin.recalls']
      refine Agree.learn (.ask _) (gives_ask _) ?_
      rcases answered : (serving root [] indexed).parent node with error | _ | parent
      · exact .pure none
      · exact absurd (eq_zero_of_parent_none answered) top
      · have whole : (serving root [] indexed).detached = [] := rfl
        have named := facts_imply whole
        exact .remember _ (fun _ knows => knows.insertParent (named.parent _ _ answered))
          fun _ _ => rfl

theorem recallChild_agree (node : NodeId) (index : Nat) :
    Agree capacity (Tree.ofCaptured root) ((serving root [] indexed).recallChild node index)
      ((serving root [] indexed).recallChild node index) := by
  have gives := (serving_isPlain root [] indexed).gives_child node index
  refine Agree.bind (.consult (fun _ knows => knows.child? node index) fun _ _ => rfl)
    fun found => ?_
  cases found with
  | some child => exact .pure _
  | none =>
      refine (readChild_agree node index).learn gives ?_
      rcases produced : (serving root [] indexed).child node index with error | _ | child
      · exact .pure none
      · exact .pure none
      · have isParent := (serving_isConsistent root indexed).parent_of_child produced
        obtain ⟨entry, accessed, listed⟩ := child_eq_ok_iff.mp produced
        obtain ⟨held, accessed', named⟩ := parent_eq_ok_iff.mp isParent
        have whole : (serving root [] indexed).detached = [] := rfl
        have found := (access_eq_ok_iff whole).mp accessed
        have found' := (access_eq_ok_iff whole).mp accessed'
        exact .remember _ (fun _ knows => knows.insertChild ⟨entry, found, listed⟩
          ⟨node, entry, found, listed⟩ ⟨held, found', named⟩) fun _ _ => rfl

theorem recallDepth_agree (room : Nat) (node : NodeId) :
    Agree capacity (Tree.ofCaptured root) ((serving root [] indexed).recallDepth room node)
      ((serving root [] indexed).recallDepth room node) := by
  induction room generalizing node with
  | zero => exact .pure 0
  | succ room hypothesis =>
      refine (recallParent_agree node).bind fun parent => ?_
      cases parent with
      | none => exact .pure 0
      | some parent => exact (hypothesis parent).map _

theorem recallIndex_agree (node : NodeId) :
    Agree capacity (Tree.ofCaptured root) ((serving root [] indexed).recallIndex node)
      ((serving root [] indexed).recallIndex node) := by
  refine Agree.bind (.consult (fun _ knows => knows.index? node) fun _ _ => rfl) fun found => ?_
  cases found with
  | some index => exact .pure _
  | none => exact searchIndex_agree recallParent_agree recallChild_agree node

theorem rememberingView_parallels :
    (serving root [] indexed).rememberingView.Parallels
      (.kindred capacity (Tree.ofCaptured root)) (serving root [] indexed).rememberingView where
  evaluation :=
    { parent := fun _ => recallParent_agree
      child := fun _ => recallChild_agree
      childCount := readChildCount_agree
      index := fun _ => recallIndex_agree
      depth := fun _ => recallDepth_agree _
      attributeValue := readAttribute_agree }
  lookUp := readIndex_agree
  heightBound := rfl

/-- What is read through either view in kindred sessions agrees. -/
theorem view_parallels (root : CapturedNode) (indexed remembering : Bool) :
    ((serving root [] indexed).view remembering).Parallels
      (.kindred capacity (Tree.ofCaptured root)) ((serving root [] indexed).view remembering) := by
  cases remembering
  · exact directView_parallels
  · exact rememberingView_parallels

/-- Both views have the same root, and reading it tells of nothing else. -/
theorem view_root_settles (root : CapturedNode) (indexed remembering : Bool) :
    Settles capacity (Tree.ofCaptured root) ((serving root [] indexed).view remembering).root
      (some 0) := by
  cases remembering
  · exact readRoot_settles
  · exact recallRoot_settles

/-- Through both views, every node but the root has a parent. -/
theorem view_parent_ne_none (remembering : Bool) {node : NodeId} (below : node ≠ 0)
    (present : node < (Tree.ofCaptured root).size) {session : Session}
    (recalls : Reading.Recalls capacity (Tree.ofCaptured root).facts session) :
    (((serving root [] indexed).view remembering).parent node).answer session ≠ none := by
  obtain ⟨parent, answered⟩ :
      ∃ parent, (serving root [] indexed).parent node = .ok (some parent) := by
    obtain ⟨entry, found⟩ : ∃ entry, Tree.entry? (Tree.ofCaptured root) node = some entry :=
      ⟨_, Array.getElem?_eq_getElem present⟩
    have answered : (serving root [] indexed).parent node = .ok entry.parent :=
      parent_of_entry found
    cases named : entry.parent with
    | none => exact absurd (eq_zero_of_parent_none (named ▸ answered)) below
    | some parent => exact ⟨parent, named ▸ answered⟩
  have told : Reading.Gives ((serving root [] indexed).readParent node) (some (some parent)) :=
    fun _ => congrArg Except.toOption answered
  cases remembering with
  | false => exact fun nowhere => nomatch (told.map Option.join session).symm.trans nowhere
  | true =>
      change ((serving root [] indexed).recallParent node).answer session ≠ none
      rw [recallParent, Reading.answer_bind]
      cases found : (Reading.consult fun cache => cache.parent? node).answer session with
      | some parent => exact nofun
      | none =>
          have unrooted : ((Reading.consult fun cache => cache.parent? node).after
              session).cache.isRoot node = false := isRoot_eq_false below (recalls.parent? node)
          change Reading.answer (if _ then _ else _) _ ≠ _
          rw [unrooted, if_neg Bool.false_ne_true, Reading.answer_bind, told]
          exact nofun

end Recalling

end Host

end TreeSelector

import TreeSelector.Cache.NodeCache

/-!
# What a memory knows

A bounded memory knows what a relation says if every entry is an instance of it and no
more entries are held than there is room for.  Neither looking up nor storing what is
the case changes that, whichever entries have to go.
-/

namespace TreeSelector

namespace Lru

variable {Key Value : Type} [DecidableEq Key] {capacity : Nat} {fact : Key → Value → Prop}
  {memory : Lru Key Value}

/-- Every entry is an instance of a relation, and there are at most `capacity` of them. -/
structure Knows (capacity : Nat) (fact : Key → Value → Prop) (memory : Lru Key Value) :
    Prop where
  room : memory.capacity = capacity
  bounded : memory.size ≤ capacity
  holds : ∀ key value, (key, value) ∈ memory.entries → fact key value

omit [DecidableEq Key] in
theorem knows_empty : (empty capacity : Lru Key Value).Knows capacity fact where
  room := rfl
  bounded := Nat.zero_le capacity
  holds := fun _ _ member => absurd member List.not_mem_nil

omit [DecidableEq Key] in
theorem Knows.clear (knows : memory.Knows capacity fact) :
    memory.clear.Knows capacity fact where
  room := knows.room
  bounded := Nat.zero_le capacity
  holds := fun _ _ member => absurd member List.not_mem_nil

omit [DecidableEq Key] in
theorem Knows.mono {fact' : Key → Value → Prop} (knows : memory.Knows capacity fact)
    (weaker : ∀ key value, fact key value → fact' key value) : memory.Knows capacity fact' where
  room := knows.room
  bounded := knows.bounded
  holds := fun key value member => weaker key value (knows.holds key value member)

theorem mem_of_get?_eq_some {key : Key} {value : Value}
    (found : (memory.get? key).1 = some value) : (key, value) ∈ memory.entries := by
  unfold get? at found
  cases peeked : memory.peek? key with
  | none =>
      rw [peeked] at found
      cases found
  | some value' =>
      rw [peeked] at found
      obtain rfl : value' = value := Option.some.inj found
      obtain ⟨before, after, entries, _⟩ := List.lookup_eq_some_iff.mp peeked
      simp [entries]

/-- Looking for what is not there changes nothing. -/
theorem get?_of_missed {key : Key} (missed : (memory.get? key).1 = none) :
    (memory.get? key).2 = memory := by
  unfold get? at missed ⊢
  split at missed
  · cases missed
  · rfl

theorem Knows.found (knows : memory.Knows capacity fact) {key : Key} {value : Value}
    (found : (memory.get? key).1 = some value) : fact key value :=
  knows.holds key value (mem_of_get?_eq_some found)

/-- What is not the case is not found. -/
theorem Knows.missed (knows : memory.Knows capacity fact) {key : Key}
    (unknown : ∀ value, ¬ fact key value) : memory.get? key = (none, memory) := by
  cases found : (memory.get? key).1 with
  | some value => exact absurd (knows.found found) (unknown value)
  | none => exact Prod.ext found (get?_of_missed found)

theorem Knows.get? (knows : memory.Knows capacity fact) (key : Key) :
    (memory.get? key).2.Knows capacity fact where
  room := by
    unfold Lru.get?
    split <;> exact knows.room
  bounded := Nat.le_trans (Nat.le_of_eq (size_get? memory key)) knows.bounded
  holds := by
    intro key' value' member
    cases found : (memory.get? key).1 with
    | none =>
        exact knows.holds key' value' (get?_of_missed found ▸ member)
    | some value =>
        have moved : (memory.get? key).2.entries = (key, value) :: memory.without key := by
          unfold Lru.get? at found ⊢
          split at found
          · obtain rfl := Option.some.inj found
            rfl
          · cases found
        rw [moved] at member
        rcases List.mem_cons.mp member with here | elsewhere
        · obtain ⟨rfl, rfl⟩ := Prod.mk.inj here
          exact knows.found found
        · exact knows.holds key' value' (List.mem_of_mem_eraseP elsewhere)

theorem Knows.insert (knows : memory.Knows capacity fact) {key : Key} {value : Value}
    (holds : fact key value) : (memory.insert key value).Knows capacity fact where
  room := knows.room
  bounded := Nat.le_trans (size_insert_le memory key value) (Nat.le_of_eq knows.room)
  holds := by
    intro key' value' member
    rcases List.mem_cons.mp (List.mem_of_mem_take member) with here | elsewhere
    · obtain ⟨rfl, rfl⟩ := Prod.mk.inj here
      exact holds
    · exact knows.holds key' value' (List.mem_of_mem_eraseP elsewhere)

end Lru

/-- What may be said of the structure of a tree. -/
structure TreeFacts (Node : Type) where
  /-- A node is the child of another one at an index. -/
  child : Node → Nat → Node → Prop
  /-- A node is at an index. -/
  index : Node → Nat → Prop
  /-- A node has another one as its parent. -/
  parent : Node → Node → Prop
  root : Node → Prop

/-- Whatever one says of a tree, the other one says too. -/
structure TreeFacts.Imply {Node : Type} (facts facts' : TreeFacts Node) : Prop where
  child : ∀ parent index child, facts.child parent index child → facts'.child parent index child
  index : ∀ child index, facts.index child index → facts'.index child index
  parent : ∀ child parent, facts.parent child parent → facts'.parent child parent
  root : ∀ node, facts.root node → facts'.root node

namespace NodeCache

variable {Node : Type} [DecidableEq Node] {capacity : Nat} {facts : TreeFacts Node}
  {cache : NodeCache Node}

/-- Whatever a cache tells about a tree is the case, and none of its three maps holds more
entries than its capacity. -/
structure Knows (capacity : Nat) (facts : TreeFacts Node) (cache : NodeCache Node) : Prop where
  children : cache.children.Knows capacity fun place child => facts.child place.1 place.2 child
  indices : cache.indices.Knows capacity facts.index
  parents : cache.parents.Knows capacity facts.parent
  root : ∀ node, cache.root = some node → facts.root node

omit [DecidableEq Node] in
theorem knows_empty : (empty capacity : NodeCache Node).Knows capacity facts :=
  ⟨Lru.knows_empty, Lru.knows_empty, Lru.knows_empty, nofun⟩

omit [DecidableEq Node] in
theorem Knows.clear (knows : cache.Knows capacity facts) : cache.clear.Knows capacity facts :=
  ⟨knows.children.clear, knows.indices.clear, knows.parents.clear, nofun⟩

omit [DecidableEq Node] in
theorem Knows.mono {facts' : TreeFacts Node} (knows : cache.Knows capacity facts)
    (imply : facts.Imply facts') : cache.Knows capacity facts' where
  children := knows.children.mono fun place => imply.child place.1 place.2
  indices := knows.indices.mono imply.index
  parents := knows.parents.mono imply.parent
  root := fun node stored => imply.root node (knows.root node stored)

theorem Knows.child? (knows : cache.Knows capacity facts) (node : Node) (index : Nat) :
    (cache.child? node index).2.Knows capacity facts :=
  ⟨knows.children.get? (node, index), knows.indices, knows.parents, knows.root⟩

theorem Knows.index? (knows : cache.Knows capacity facts) (node : Node) :
    (cache.index? node).2.Knows capacity facts :=
  ⟨knows.children, knows.indices.get? node, knows.parents, knows.root⟩

theorem Knows.parent? (knows : cache.Knows capacity facts) (node : Node) :
    (cache.parent? node).2.Knows capacity facts :=
  ⟨knows.children, knows.indices, knows.parents.get? node, knows.root⟩

theorem Knows.insertChild (knows : cache.Knows capacity facts) {parent child : Node}
    {index : Nat} (isChild : facts.child parent index child) (isAt : facts.index child index)
    (isParent : facts.parent child parent) :
    (cache.insertChild parent index child).Knows capacity facts :=
  ⟨knows.children.insert isChild, knows.indices.insert isAt, knows.parents.insert isParent,
    knows.root⟩

theorem Knows.insertParent (knows : cache.Knows capacity facts) {node parent : Node}
    (isParent : facts.parent node parent) :
    (cache.insertParent node parent).Knows capacity facts :=
  ⟨knows.children, knows.indices, knows.parents.insert isParent, knows.root⟩

theorem Knows.setRoot (knows : cache.Knows capacity facts) {node : Node}
    (isRoot : facts.root node) : (cache.setRoot node).Knows capacity facts := by
  have installed : ∀ root, some node = some root → facts.root root := by
    rintro root ⟨⟩
    exact isRoot
  unfold NodeCache.setRoot
  split
  · exact ⟨knows.clear.children, knows.clear.indices, knows.clear.parents, installed⟩
  · exact ⟨knows.children, knows.indices, knows.parents, installed⟩

end NodeCache

end TreeSelector

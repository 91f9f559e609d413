import TreeSelector.Proofs.Reading.Remembering

/-!
# Coherence of the remembering view

On a captured tree from which nothing was detached and none of whose nodes has more
children than a walk visits, whatever the remembering view has learned is true of the
tree, whichever questions were put to it and whichever entries had to go; its answers are
those of the direct view, for which it asks the host no more often.
-/

namespace TreeSelector

/-- What can be asked of a view; it can also be told to forget. -/
inductive Question where
  | root
  | parent (node : NodeId)
  | child (node : NodeId) (index : Nat)
  | childCount (node : NodeId)
  | index (node : NodeId)
  | depth (node : NodeId)
  | attributeValue (node : NodeId) (attr : Attribute)
  | lookUp (node : NodeId) (keys : List IndexKey)
  | forget

inductive Answer where
  | node (node : Option NodeId)
  | position (index : Option Nat)
  | count (count : Nat)
  | attribute (value : AttributeValue)
  | nodes (found : Option (List NodeId))
  | forgotten

namespace View

/-- What a view answers.  A view that remembers nothing has nothing to forget. -/
def respond (view : View) : Question → Reading Answer
  | .root => return .node (← view.root)
  | .parent node => return .node (← view.parent node)
  | .child node index => return .node (← view.child node index)
  | .childCount node => return .count (← view.childCount node)
  | .index node => return .position (← view.index node)
  | .depth node => return .count (← view.depth node)
  | .attributeValue node attr => return .attribute (← view.attributeValue node attr)
  | .lookUp node keys => return .nodes (← view.lookUp node keys)
  | .forget => do
      Reading.forget
      return .forgotten

def respondAll (view : View) : List Question → Reading (List Answer)
  | [] => return []
  | question :: questions => do
      let answer ← view.respond question
      let answers ← view.respondAll questions
      return answer :: answers

variable {capacity : Nat} {facts : TreeFacts NodeId} {view reference : View}

theorem Saves.respond (saves : view.Saves (Reading.Recalls capacity facts) reference) :
    (question : Question) → Reading.Saves (Reading.Recalls capacity facts)
      (view.respond question) (reference.respond question)
  | .root => saves.root.map _
  | .parent node => (saves.parent node).map _
  | .child node index => (saves.child node index).map _
  | .childCount node => (saves.childCount node).map _
  | .index node => (saves.index node).map _
  | .depth node => (saves.depth node).map _
  | .attributeValue node attr => (saves.attributeValue node attr).map _
  | .lookUp node keys => (saves.lookUp node keys).map _
  | .forget => fun _ _ recalls => ⟨rfl, recalls.clear, Nat.le_refl _⟩

theorem Saves.respondAll (saves : view.Saves (Reading.Recalls capacity facts) reference)
    (questions : List Question) : Reading.Saves (Reading.Recalls capacity facts)
      (view.respondAll questions) (reference.respondAll questions) := by
  induction questions with
  | nil => exact .pure []
  | cons question questions hypothesis =>
      exact (saves.respond question).bind fun answer => hypothesis.map _

end View

/-- What is the case about a tree. -/
def Tree.facts (tree : Tree) : TreeFacts NodeId where
  child parent index child :=
    ∃ entry, tree.entry? parent = some entry ∧ entry.children[index]? = some child
  index child index := ∃ parent entry, tree.entry? parent = some entry ∧
    entry.children[index]? = some child
  parent child parent := ∃ entry, tree.entry? child = some entry ∧ entry.parent = some parent
  root node := node = 0

namespace Host

open Reading (Recalls)

variable {host : Host} {capacity : Nat}

theorem rememberingView_saves (plain : host.IsPlain) (consistent : host.IsConsistent)
    (near : ∀ parent index child, host.child parent index = .ok (some child) →
      index < maxChildren) :
    host.rememberingView.Saves (Recalls capacity host.facts) host.directView where
  root := plain.recallRoot_saves fun _ => .rfl
  parent := consistent.recallParent_saves
  child := fun node index => plain.recallChild_saves_near consistent (near node index)
  childCount := readChildCount_saves
  index := plain.recallIndex_saves consistent
  depth := consistent.depth_saves
  attributeValue := readAttribute_saves
  lookUp := readIndex_saves
  heightBound := rfl

/-- What a host tells of a tree from which nothing was detached is the case. -/
theorem facts_imply (whole : host.detached = []) : host.facts.Imply host.tree.facts where
  child := by
    intro parent index child produced
    obtain ⟨entry, accessed, listed⟩ := child_eq_ok_iff.mp produced
    exact ⟨entry, (access_eq_ok_iff whole).mp accessed, listed⟩
  index := by
    rintro child index ⟨_, parent, produced⟩
    obtain ⟨entry, accessed, listed⟩ := child_eq_ok_iff.mp produced
    exact ⟨parent, entry, (access_eq_ok_iff whole).mp accessed, listed⟩
  parent := by
    intro child parent answered
    obtain ⟨entry, accessed, named⟩ := parent_eq_ok_iff.mp answered
    exact ⟨entry, (access_eq_ok_iff whole).mp accessed, named⟩
  root := by
    intro node rooted
    unfold Host.facts root at rooted
    cases accessed : host.access 0 with
    | error error => simp [accessed, bind, Except.bind] at rooted
    | ok entry =>
        rw [accessed] at rooted
        exact (Except.ok.inj rooted).symm

theorem lt_maxChildren_of_isNarrow (whole : host.detached = []) (narrow : host.tree.IsNarrow)
    (parent : NodeId) (index : Nat) (child : NodeId)
    (produced : host.child parent index = .ok (some child)) : index < maxChildren := by
  obtain ⟨entry, accessed, listed⟩ := child_eq_ok_iff.mp produced
  have inside : index < entry.children.size := (Array.getElem?_eq_some_iff.mp listed).1
  exact Nat.lt_of_lt_of_le inside (narrow.size_le ((access_eq_ok_iff whole).mp accessed))

/-- After any questions, the remembering view knows nothing but what is the case, and no
more than it has room for; it has given the answers of the direct view, and has asked the
host no more often. -/
theorem remembers_coherently (root : CapturedNode) (indexed : Bool)
    (narrow : (Tree.ofCaptured root).IsNarrow) (capacity : Nat) (questions : List Question) :
    let host := serving root [] indexed
    let remembering := host.rememberingView.respondAll questions
    let direct := host.directView.respondAll questions
    let start := Session.fresh capacity
    (remembering.after start).cache.Knows capacity (Tree.ofCaptured root).facts ∧
      remembering.answer start = direct.answer start ∧
      (remembering.after start).calls ≤ (direct.after start).calls := by
  intro host remembering direct start
  have saves : Reading.Saves (Recalls capacity host.facts) remembering direct :=
    (rememberingView_saves (serving_isPlain root [] indexed) (serving_isConsistent root indexed)
      (lt_maxChildren_of_isNarrow rfl narrow)).respondAll questions
  obtain ⟨same, recalls, fewer⟩ := saves start start Reading.recalls_fresh
  refine ⟨recalls.mono (facts_imply rfl), same, ?_⟩
  have unasked : start.calls = 0 := rfl
  omega

/-- With room for a single entry, the position of a second child is still recalled after it
was found, and its siblings have to be asked for again. -/
theorem remembers_last_child :
    let tree : CapturedNode := .node {} [.node {} [], .node {} []]
    let host := serving tree [] true
    let questions : List Question := [.index 2, .index 2, .child 0 0, .depth 2, .forget, .root]
    let remembering := host.rememberingView.respondAll questions
    let direct := host.directView.respondAll questions
    let start := Session.fresh 1
    (Tree.ofCaptured tree).IsNarrow ∧
      (remembering.after start).cache.Knows 1 (Tree.ofCaptured tree).facts ∧
      remembering.answer start = direct.answer start ∧
      (remembering.after start).calls = 8 ∧ (direct.after start).calls = 12 := by
  intro tree host questions remembering direct start
  have narrow : (Tree.ofCaptured tree).IsNarrow := by decide +kernel
  obtain ⟨knows, same, _⟩ := remembers_coherently tree true narrow 1 questions
  exact ⟨narrow, knows, same, by decide +kernel, by decide +kernel⟩

end Host

end TreeSelector

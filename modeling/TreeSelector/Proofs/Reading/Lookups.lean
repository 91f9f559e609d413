import TreeSelector.Proofs.Reading.Direct
import TreeSelector.Proofs.Tree.Preorder

/-!
# Lookups and walks

What the index holds for some keys is what a walk would have found: the index and the walk
below a node come to the same nodes, in the same order, and stop at the same one.  A node
that was detached takes its place among them but nothing is visited below it.
-/

namespace TreeSelector

namespace Host

/-- A lookup from a live node succeeds with the reachable nodes that answer to a key. -/
theorem lookUp_of_isLive {host : Host} {node : NodeId} (live : host.isLive node = true)
    (keys : List IndexKey) :
    host.lookUp node keys = .ok ((host.reachable node).filter (host.answersTo · keys)) := by
  unfold isLive at live
  unfold lookUp
  cases accessed : host.access node with
  | error error =>
      rw [accessed] at live
      cases live
  | ok entry => rfl

/-- A node answers to some keys if one of them accepts what the direct view reads off it. -/
theorem IsPlain.answersTo_eq_any {host : Host} (plain : host.IsPlain) (node : NodeId)
    (keys : List IndexKey) (session : Session) :
    host.answersTo node keys = keys.any fun key =>
      key.accepts ((host.directView.attributeValue node key.subject).answer session) := by
  have steady := host.directView_isSteady
  have read : ∀ attr, (host.directView.attributeValue node attr).answer session =
      (host.directView.attributeValue node attr).result :=
    fun attr => (steady.attributeValue node attr).gives session
  simp only [read]
  rw [← (plain.gives_answersTo node keys).result_eq,
    (TreeSelector.gives_answersTo steady node keys).result_eq]

/-- Whatever was detached, and however wide and large the tree is, what the index holds for
some keys below a live node are, in the same order and each of them once, those of the node
and of what a walk meets below it whose attribute is accepted by a key. -/
theorem lookUp_eq_met (root : CapturedNode) (gone : List NodeId) (indexed : Bool)
    (node : NodeId) (keys : List IndexKey) (session session' : Session)
    (live : (serving root gone indexed).isLive node = true) :
    let host := serving root gone indexed
    let met := node :: (host.directView.descendants node).answer session
    ∃ found, host.lookUp node keys = .ok found ∧ found.Nodup ∧
      found = met.filter fun reached => keys.any fun key =>
        key.accepts ((host.directView.attributeValue reached key.subject).answer session') := by
  intro host met
  have plain : host.IsPlain := serving_isPlain root gone indexed
  have walked : met = host.reachable node := by
    have met := gives_candidates host.directView_isSteady .descendant node .unbounded
    rw [← plain.descendants_eq, View.descendants, met.result_eq]
    exact congrArg (node :: ·) (met session)
  have ascending : (host.reachable node).Pairwise (· < ·) := reachable_ascending node
  have distinct : (host.reachable node).Nodup := ascending.imp Nat.ne_of_lt
  refine ⟨_, lookUp_of_isLive live keys, distinct.filter _, ?_⟩
  rw [walked]
  exact List.filter_congr fun reached _ => plain.answersTo_eq_any reached keys session'

/-- A detached node is not found, nor is what is below it. -/
theorem lookUp_eq_met_aroundDetached :
    let tree : CapturedNode :=
      .node {} [.node { text := some "Skip" } [.node { text := some "Skip" } []],
        .node { text := some "Skip it" } []]
    let host := serving tree [1] true
    host.isLive 0 = true ∧ (host.directView.descendants 0).answer (.fresh 0) = [1, 3] ∧
      host.lookUp 0 [.text "Skip"] = .ok [3] := by
  intro tree host
  have live : host.isLive 0 = true := by decide +kernel
  have below : (host.directView.descendants 0).answer (.fresh 0) = [1, 3] := by decide +kernel
  obtain ⟨found, answered, _, filtered⟩ :=
    lookUp_eq_met tree [1] true 0 [.text "Skip"] (.fresh 0) (.fresh 0) live
  refine ⟨live, below, ?_⟩
  rw [answered, filtered, below]
  decide +kernel

end Host

end TreeSelector

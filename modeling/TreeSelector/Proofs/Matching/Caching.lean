import TreeSelector.Proofs.Language.Structural
import TreeSelector.Proofs.Reading.Exploration

/-!
# Chains that gain nothing from a cache

A chain that does not revisit the structure of a tree asks for attributes and numbers of
children only, besides the single walk that a query may take.  None of this is ever found in
a cache, so through the remembering view a query asks the host as often as through the
direct one.
-/

namespace TreeSelector

open Reading (AsksAlike Paces)

/-- Attributes and the numbers of children, and nothing that is remembered. -/
def Scope.unremembered : Scope := ⟨false, false⟩

theorem Scope.permits_unremembered {names : List Name}
    (plain : names.any Name.isStructural = false) : unremembered.Permits names := by
  intro name member symbol known
  have asked : symbol.isStructural = false := by
    have unnamed := List.any_eq_false.mp plain name member
    rwa [Name.isStructural, known, Option.any_some, Bool.not_eq_true] at unnamed
  cases symbol <;> first | rfl | cases asked

/-- What is asked of a node without structural names is not remembered. -/
theorem Segment.holds_asksAlike {segment : Segment} (plain : segment.isStructural = false)
    (host : Host) (context : Context) :
    AsksAlike (segment.predicate.holds host.rememberingView context)
      (segment.predicate.holds host.directView context) := by
  rw [isStructural_eq] at plain
  exact host.rememberingView_relates.predicate context _ (Scope.permits_unremembered plain)

namespace Host

variable {host : Host} {capacity : Nat}

section Walks

variable (plain : host.IsPlain) (treelike : host.IsTreelike)

theorem start_paces (node : NodeId) (window : Window) (treelike : host.IsTreelike) :
    Paces (· = .empty capacity) (fun walk => host.RouteExplores capacity node walk.route)
      (Walk.start host.rememberingView .descendant node window)
      (Walk.start host.directView .descendant node window) := by
  refine .pure ?_
  rintro _ rfl
  exact Exploring.begin treelike node

include plain treelike

theorem IsPlain.find_paces (node : NodeId) (keys : List IndexKey) :
    Paces (· = .empty capacity) (fun _ _ => True) (host.rememberingView.find node keys)
      (host.directView.find node keys) := by
  have answers := host.rememberingView_relates.answersTo
  refine (readIndex_asksAlike node keys _).bind fun found => ?_
  cases found with
  | some found => exact .pure fun _ _ => trivial
  | none =>
      have tests : ∀ below, AsksAlike
          (do if ← host.rememberingView.answersTo below keys then return some below else return none)
          (do if ← host.directView.answersTo below keys then return some below else return none) := by
        intro below
        refine AsksAlike.bind (answers below keys) fun accepted => ?_
        cases accepted <;> exact .pure _
      refine (answers node keys _).bind fun self => ?_
      refine (start_paces node .unbounded treelike).bind fun walk => ?_
      exact (plain.collectUpTo_paces treelike tests walk.left walk).map _

end Walks

end Host

namespace Chain

/-- A chain that may match anywhere is matched where it is asked to. -/
theorem matchContext_of_free {chain : Chain} (free : chain.isRootAnchored = false) (view : View)
    (options : QueryOptions) (node : NodeId) :
    chain.matchContext view options node = chain.matchIn view options (.single node) := by
  unfold matchContext
  rw [free]
  rfl

variable {chain : Chain} (once : chain.revisitsTree = false)

include once

theorem matchNode_asksAlike (host : Host) (options : QueryOptions) (node : NodeId) :
    AsksAlike (chain.matchNode host.rememberingView options node)
      (chain.matchNode host.directView options node) := by
  have free := isRootAnchored_of_revisitsTree once
  obtain ⟨segment, rfl, plain⟩ := exists_segment_of_revisitsTree once
  refine AsksAlike.map _ ?_
  rw [matchContext_of_free free, matchContext_of_free free]
  refine (segment.holds_asksAlike plain host (.single node)).bind fun holds => ?_
  cases holds <;> exact .pure _

variable {host : Host} {capacity : Nat} (plain : host.IsPlain) (treelike : host.IsTreelike)

include plain treelike

theorem query_paces (options : QueryOptions) (node : NodeId) :
    Paces (· = .empty capacity) (fun _ _ => True)
      (chain.query host.rememberingView options node)
      (chain.query host.directView options node) := by
  have tests := matchNode_asksAlike once host options
  unfold query
  rw [isRootAnchored_of_revisitsTree once]
  cases chain.isSeeded options with
  | true =>
      exact (plain.find_paces treelike node chain.indexKeys).bind fun found =>
        AsksAlike.searchAmong tests found _
  | false =>
      refine (tests node _).bind fun found => ?_
      cases found with
      | some found => exact .pure fun _ _ => trivial
      | none =>
          exact (Host.start_paces node .unbounded treelike).bind fun walk =>
            plain.searchUpTo_paces treelike tests walk.left walk

theorem queryAll_paces (options : QueryOptions) (node : NodeId) :
    Paces (· = .empty capacity) (fun _ _ => True)
      (chain.queryAll host.rememberingView options node)
      (chain.queryAll host.directView options node) := by
  have tests := matchNode_asksAlike once host options
  unfold queryAll
  rw [isRootAnchored_of_revisitsTree once]
  cases chain.isSeeded options with
  | true =>
      refine (plain.find_paces treelike node chain.indexKeys).bind fun found => ?_
      exact (AsksAlike.collectAmong tests found _).map _
  | false =>
      refine (tests node _).bind fun self => ?_
      refine (Host.start_paces node .unbounded treelike).bind fun walk => ?_
      exact (plain.collectUpTo_paces treelike tests walk.left walk).map _

omit once plain treelike

/-- A query that does not revisit the tree has the same answer through a new cache as without
one, and asks the host exactly as often. -/
theorem queries_gain_nothing (root : CapturedNode) (gone : List NodeId) (indexed : Bool)
    (capacity : Nat) (chain : Chain) (once : chain.revisitsTree = false) (options : QueryOptions)
    (node : NodeId) :
    let host := Host.serving root gone indexed
    let start := Session.fresh capacity
    let query := chain.query host.rememberingView options node
    let query' := chain.query host.directView options node
    let all := chain.queryAll host.rememberingView options node
    let all' := chain.queryAll host.directView options node
    (query.answer start = query'.answer start ∧
        (query.after start).calls = (query'.after start).calls) ∧
      (all.answer start = all'.answer start ∧
        (all.after start).calls = (all'.after start).calls) := by
  intro host start query query' all all'
  have plain : host.IsPlain := Host.serving_isPlain root gone indexed
  have treelike : host.IsTreelike := Host.serving_isTreelike root gone indexed
  exact ⟨(query_paces once plain treelike options node).agree rfl,
    (queryAll_paces once plain treelike options node).agree rfl⟩

/-- A query for nodes without children asks seven times, and eleven times for all of them. -/
theorem leaves_gain_nothing :
    let leaf : Chain := .last
      ⟨false, .compare ⟨.reference (.known .childCount) ⟨1, 11⟩, .equal, .integer 0 ⟨12, 13⟩,
        ⟨1, 13⟩⟩, none, ⟨0, 14⟩⟩
    let host := Host.serving (.node {} [.node {} [.node {} []], .node {} []]) [3] false
    let start := Session.fresh 2
    let query := leaf.query host.rememberingView default 0
    let all := leaf.queryAll host.rememberingView default 0
    leaf.revisitsTree = false ∧ query.answer start = some 2 ∧ (query.after start).calls = 7 ∧
      all.answer start = [2, 3] ∧ (all.after start).calls = 11 := by
  intro leaf host start query all
  have once : leaf.revisitsTree = false := by decide +kernel
  obtain ⟨⟨same, asked⟩, same', asked'⟩ :=
    queries_gain_nothing (.node {} [.node {} [.node {} []], .node {} []]) [3] false 2 leaf once
      default 0
  exact ⟨once, same.trans (by decide +kernel), asked.trans (by decide +kernel),
    same'.trans (by decide +kernel), asked'.trans (by decide +kernel)⟩

end Chain

end TreeSelector

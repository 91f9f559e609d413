import TreeSelector.Eval.Evaluate
import TreeSelector.Language.Analysis
import TreeSelector.Reading.Walk

/-!
# Matching

A chain matches from a node if its head holds there and the rest of it matches
from one of the candidates that the connector leads to, tried in order.  A query
tries a node and its descendants in turn.  Where the options allow it, the start
nodes of a query and the candidates of unbounded descendant connectors come from
the index of the host instead of a walk.
-/

namespace TreeSelector

namespace View

def answersTo (view : View) (node : NodeId) : List IndexKey → Reading Bool
  | [] => return false
  | key :: keys => do
      if key.accepts (← view.attributeValue node key.subject) then return true
      answersTo view node keys

/-- A node and its descendants that answer to one of some keys, in pre-order: from
the index, or by a walk if there is none. -/
def find (view : View) (node : NodeId) (keys : List IndexKey) : Reading (List NodeId) := do
  match ← view.lookUp node keys with
  | some found => return found
  | none =>
      let self ← view.answersTo node keys
      let walk ← Walk.start view .descendant node .unbounded
      let below ← walk.collect view fun node => do
        if ← view.answersTo node keys then return some node else return none
      return if self then node :: below else below

/-- The first result that a test finds among some nodes. -/
def searchAmong (test : NodeId → Reading (Option α)) : List NodeId → Reading (Option α)
  | [] => return none
  | node :: nodes => do
      match ← test node with
      | some found => return some found
      | none => searchAmong test nodes

/-- All results that a test finds among some nodes, in order. -/
def collectAmong (test : NodeId → Reading (Option α)) : List NodeId → Reading (List α)
  | [] => return []
  | node :: nodes => do
      match ← test node with
      | some found => return found :: (← collectAmong test nodes)
      | none => collectAmong test nodes

end View

namespace Chain

/-- The first result that a test finds among the candidates of a connector. -/
def searchCandidates (view : View) (options : QueryOptions) (connector : Connector)
    (reach : Window) (keys : List IndexKey) (node : NodeId)
    (test : NodeId → Reading (Option α)) : Reading (Option α) := do
  if options.fastQuery && !keys.isEmpty then
    let found ← view.find node keys
    View.searchAmong test (found.filter (· ≠ node))
  else
    let walk ← Walk.start view connector node reach
    walk.search view test

/-- Matches a chain in a context whose current node its head is tested on; the
result is the context of the first match. -/
def matchIn (view : View) (options : QueryOptions) : Chain → Context →
    Reading (Option Context)
  | last segment, context => do
      if ← segment.predicate.holds view context then return some context else return none
  | link segment connector rest, context => do
      if ← segment.predicate.holds view context then
        searchCandidates view options connector segment.reach
          (connectionKeys connector segment.reach rest) context.current
          fun candidate => matchIn view options rest (context.push candidate)
      else return none

/-- Matches a chain from a node, or from the root if it accepts nothing else. -/
def matchContext (chain : Chain) (view : View) (options : QueryOptions) (node : NodeId) :
    Reading (Option Context) := do
  let start ←
    if chain.isRootAnchored then do
      pure ((← view.root).getD node)
    else pure node
  chain.matchIn view options (.single start)

/-- The target node of the first match from a node. -/
def matchNode (chain : Chain) (view : View) (options : QueryOptions) (node : NodeId) :
    Reading (Option NodeId) := do
  return (← chain.matchContext view options node).bind (·.get? chain.targetIndex)

/-- The target node of the first match among a node and its descendants. -/
def query (chain : Chain) (view : View) (options : QueryOptions) (node : NodeId) :
    Reading (Option NodeId) := do
  if chain.isRootAnchored then chain.matchNode view options node
  else if chain.isSeeded options then
    View.searchAmong (chain.matchNode view options) (← view.find node chain.indexKeys)
  else
    match ← chain.matchNode view options node with
    | some found => return some found
    | none =>
        let walk ← Walk.start view .descendant node .unbounded
        walk.search view (chain.matchNode view options)

/-- The target nodes of all matches among a node and its descendants, each once, in
the order of the walk. -/
def queryAll (chain : Chain) (view : View) (options : QueryOptions) (node : NodeId) :
    Reading (List NodeId) := do
  if chain.isRootAnchored then
    return (← chain.matchNode view options node).toList
  else if chain.isSeeded options then
    return firstOccurrences
      (← View.collectAmong (chain.matchNode view options) (← view.find node chain.indexKeys))
  else
    let self ← chain.matchNode view options node
    let walk ← Walk.start view .descendant node .unbounded
    let below ← walk.collect view (chain.matchNode view options)
    return firstOccurrences (self.toList ++ below)

end Chain

end TreeSelector

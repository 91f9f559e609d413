import TreeSelector.Matching

/-!
# Matching over other walks

Matching once more, with the way in which walks are begun and followed left open.  With the
walks of the view it is matching as it was.
-/

namespace TreeSelector

/-- How walks are begun and followed. -/
structure Walker where
  start : Connector → NodeId → Window → Reading Walk
  next : Walk → Reading (Option (NodeId × Walk))

def View.walker (view : View) : Walker := ⟨Walk.start view, Walk.next view⟩

namespace Walker

section Walks

variable {α : Type}

def searchUpTo (walker : Walker) (test : NodeId → Reading (Option α)) :
    (count : Nat) → Walk → Reading (Option α)
  | 0, _ => return none
  | count + 1, walk => do
      match ← walker.next walk with
      | none => return none
      | some (node, walk) =>
          match ← test node with
          | some found => return some found
          | none => walker.searchUpTo test count walk

def collectUpTo (walker : Walker) (test : NodeId → Reading (Option α)) :
    (count : Nat) → Walk → Reading (List α)
  | 0, _ => return []
  | count + 1, walk => do
      match ← walker.next walk with
      | none => return []
      | some (node, walk) =>
          match ← test node with
          | some found => return found :: (← walker.collectUpTo test count walk)
          | none => walker.collectUpTo test count walk

end Walks

section Queries

variable (walker : Walker) (view : View) (options : QueryOptions)

/-- As `View.find`. -/
def find (node : NodeId) (keys : List IndexKey) : Reading (List NodeId) := do
  match ← view.lookUp node keys with
  | some found => return found
  | none =>
      let self ← view.answersTo node keys
      let walk ← walker.start .descendant node .unbounded
      let below ← walker.collectUpTo (fun node => do
        if ← view.answersTo node keys then return some node else return none) walk.left walk
      return if self then node :: below else below

/-- As `Chain.searchCandidates`. -/
def searchCandidates {α : Type} (connector : Connector) (reach : Window) (keys : List IndexKey)
    (node : NodeId) (test : NodeId → Reading (Option α)) : Reading (Option α) := do
  if options.fastQuery && !keys.isEmpty then
    let found ← walker.find view node keys
    View.searchAmong test (found.filter (· ≠ node))
  else
    let walk ← walker.start connector node reach
    walker.searchUpTo test walk.left walk

/-- As `Chain.matchIn`. -/
def matchIn : Chain → Context → Reading (Option Context)
  | .last segment, context => do
      if ← segment.predicate.holds view context then return some context else return none
  | .link segment connector rest, context => do
      if ← segment.predicate.holds view context then
        walker.searchCandidates view options connector segment.reach
          (Chain.connectionKeys connector segment.reach rest) context.current
          fun candidate => matchIn rest (context.push candidate)
      else return none

/-- As `Chain.matchContext`. -/
def matchContext (chain : Chain) (node : NodeId) : Reading (Option Context) := do
  let start ←
    if chain.isRootAnchored then do
      pure ((← view.root).getD node)
    else pure node
  walker.matchIn view options chain (.single start)

/-- As `Chain.matchNode`. -/
def matchNode (chain : Chain) (node : NodeId) : Reading (Option NodeId) := do
  return (← walker.matchContext view options chain node).bind (·.get? chain.targetIndex)

/-- As `Chain.query`. -/
def query (chain : Chain) (node : NodeId) : Reading (Option NodeId) := do
  if chain.isRootAnchored then walker.matchNode view options chain node
  else if chain.isSeeded options then
    View.searchAmong (walker.matchNode view options chain)
      (← walker.find view node chain.indexKeys)
  else
    match ← walker.matchNode view options chain node with
    | some found => return some found
    | none =>
        let walk ← walker.start .descendant node .unbounded
        walker.searchUpTo (walker.matchNode view options chain) walk.left walk

/-- As `Chain.queryAll`. -/
def queryAll (chain : Chain) (node : NodeId) : Reading (List NodeId) := do
  if chain.isRootAnchored then
    return (← walker.matchNode view options chain node).toList
  else if chain.isSeeded options then
    return firstOccurrences
      (← View.collectAmong (walker.matchNode view options chain)
        (← walker.find view node chain.indexKeys))
  else
    let self ← walker.matchNode view options chain node
    let walk ← walker.start .descendant node .unbounded
    let below ← walker.collectUpTo (walker.matchNode view options chain) walk.left walk
    return firstOccurrences (self.toList ++ below)

end Queries

section Walker

/-! With the walks of the view nothing is changed. -/

variable {α : Type} (view : View) (options : QueryOptions)

theorem searchUpTo_walker (test : NodeId → Reading (Option α)) (count : Nat) (walk : Walk) :
    view.walker.searchUpTo test count walk = Walk.searchUpTo view test count walk := by
  induction count generalizing walk with
  | zero => rfl
  | succ count hypothesis =>
      simp only [searchUpTo, Walk.searchUpTo, hypothesis]
      rfl

theorem collectUpTo_walker (test : NodeId → Reading (Option α)) (count : Nat) (walk : Walk) :
    view.walker.collectUpTo test count walk = Walk.collectUpTo view test count walk := by
  induction count generalizing walk with
  | zero => rfl
  | succ count hypothesis =>
      simp only [collectUpTo, Walk.collectUpTo, hypothesis]
      rfl

theorem find_walker (node : NodeId) (keys : List IndexKey) :
    view.walker.find view node keys = view.find node keys := by
  simp only [find, View.find, collectUpTo_walker]
  rfl

theorem matchIn_walker (chain : Chain) (context : Context) :
    view.walker.matchIn view options chain context = chain.matchIn view options context := by
  induction chain generalizing context with
  | last segment => rfl
  | link segment connector rest hypothesis =>
      simp only [matchIn, Chain.matchIn, searchCandidates, Chain.searchCandidates, find_walker,
        searchUpTo_walker, hypothesis]
      rfl

theorem matchContext_walker (chain : Chain) (node : NodeId) :
    view.walker.matchContext view options chain node = chain.matchContext view options node := by
  simp only [matchContext, Chain.matchContext, matchIn_walker]

theorem matchNode_walker (chain : Chain) :
    view.walker.matchNode view options chain = chain.matchNode view options := by
  funext node
  simp only [matchNode, Chain.matchNode, matchContext_walker]

theorem query_walker (chain : Chain) (node : NodeId) :
    view.walker.query view options chain node = chain.query view options node := by
  simp only [query, Chain.query, find_walker, matchNode_walker, searchUpTo_walker]
  rfl

theorem queryAll_walker (chain : Chain) (node : NodeId) :
    view.walker.queryAll view options chain node = chain.queryAll view options node := by
  simp only [queryAll, Chain.queryAll, find_walker, matchNode_walker, collectUpTo_walker]
  rfl

end Walker

end Walker

/-- Whether a route goes over descendants. -/
def Route.isBelow : Route → Bool
  | .below _ => true
  | _ => false

/-- Two ways to walk that differ in walks over descendants at most. -/
structure Walker.AgreesBeside (walker walker' : Walker) : Prop where
  start : ∀ connector, connector ≠ .descendant → walker.start connector = walker'.start connector
  next : ∀ walk, walk.route.isBelow = false → walker.next walk = walker'.next walk

/-- The walks of a view, except that a session in which descendants would be walked over is
marked as broken. -/
def View.guarded (view : View) : Walker where
  start connector node window :=
    if connector = .descendant then do
      modify fun session => { session with broken := true }
      return .empty
    else Walk.start view connector node window
  next walk :=
    if walk.route.isBelow then do
      modify fun session => { session with broken := true }
      return none
    else walk.next view

theorem View.guarded_agreesBeside (view : View) : view.guarded.AgreesBeside view.walker where
  start := fun _ other => funext fun _ => funext fun _ => if_neg other
  next := fun _ beside => if_neg (Bool.not_eq_true _ ▸ beside)

end TreeSelector

import TreeSelector.Language.Chain
import TreeSelector.Tree.Attribute

/-!
# What a chain tells before it is matched

Index keys that every node accepted by a predicate answers to, whether only the
root of a tree can match, and whether matching revisits the structure of the
tree.
-/

namespace TreeSelector

/-- Drops items that occurred before. -/
def firstOccurrences [DecidableEq α] : List α → List α
  | [] => []
  | item :: items => item :: (firstOccurrences items).filter (· ≠ item)

section FirstOccurrences

variable [DecidableEq α]

@[simp]
theorem mem_firstOccurrences {item : α} {items : List α} :
    item ∈ firstOccurrences items ↔ item ∈ items := by
  induction items with
  | nil => simp [firstOccurrences]
  | cons first items hypothesis =>
      by_cases same : item = first <;> simp [firstOccurrences, hypothesis, same]

theorem nodup_firstOccurrences (items : List α) : (firstOccurrences items).Nodup := by
  induction items with
  | nil => simp [firstOccurrences]
  | cons first items hypothesis =>
      have absent : first ∉ (firstOccurrences items).filter (· ≠ first) := by simp
      exact List.nodup_cons.mpr ⟨absent, hypothesis.filter _⟩

theorem firstOccurrences_eq_self {items : List α} (distinct : items.Nodup) :
    firstOccurrences items = items := by
  induction items with
  | nil => rfl
  | cons first items hypothesis =>
      obtain ⟨absent, distinct⟩ := List.nodup_cons.mp distinct
      rw [firstOccurrences, hypothesis distinct, List.filter_eq_self.mpr]
      intro item member
      simpa using fun same : item = first => absent (same ▸ member)

end FirstOccurrences

namespace Comparison

/-- The index key that a node answers to if the comparison holds of it. -/
def indexKey? (comparison : Comparison) : Option IndexKey :=
  match comparison.left, comparison.right with
  | .reference (.known symbol) _, .text value _ _ =>
      if value.isEmpty then none
      else
        match symbol, comparison.relation with
        | .id, .equal => some (.id value)
        | .vid, .equal => some (.vid value)
        | .text, .equal | .text, .beginsWith | .text, .contains | .text, .endsWith =>
            some (.text value)
        | _, _ => none
  | _, _ => none

/-- Whether the comparison says that the current node has no parent. -/
def saysOrphan (comparison : Comparison) : Bool :=
  comparison.relation == .equal &&
    match comparison.left, comparison.right with
    | .reference name _, .null _ | .null _, .reference name _ => name == .known .parent
    | _, _ => false

end Comparison

namespace Predicate

/-- The keys of a conjunction: those of one side are enough. -/
def keysOfBoth (left right : List IndexKey) : List IndexKey :=
  if left.isEmpty then right else left

/-- The keys of a disjunction: both sides must have some. -/
def keysOfEither (left right : List IndexKey) : List IndexKey :=
  if left.isEmpty || right.isEmpty then [] else firstOccurrences (left ++ right)

/-- Index keys such that every node the predicate accepts answers to one of them;
none if there is no such guarantee. -/
def indexKeys : Predicate → List IndexKey
  | compare comparison => comparison.indexKey?.toList
  | and left right => keysOfBoth left.indexKeys right.indexKeys
  | or left right => keysOfEither left.indexKeys right.indexKeys

end Predicate

namespace Symbol

/-- Names whose evaluation reaches back into the structure of the tree. -/
def isStructural : Symbol → Bool
  | index | parent | depth | getChild => true
  | _ => false

end Symbol

namespace Name

def isStructural (name : Name) : Bool := name.symbol?.any Symbol.isStructural

end Name

namespace Operand

mutual

/-- Whether a structural name occurs anywhere in the operand. -/
def isStructural : Operand → Bool
  | null _ | boolean _ _ | integer _ _ | text _ _ _ => false
  | reference name _ => name.isStructural
  | member object property _ => property.isStructural || object.isStructural
  | call function _ arguments _ => function.isStructural || anyStructural arguments
  | invoke object method _ arguments _ =>
      method.isStructural || object.isStructural || anyStructural arguments

def anyStructural : List Operand → Bool
  | [] => false
  | operand :: operands => operand.isStructural || anyStructural operands

end

end Operand

namespace Segment

def isStructural (segment : Segment) : Bool :=
  segment.predicate.comparisons.any fun comparison =>
    comparison.left.isStructural || comparison.right.isStructural

end Segment

namespace Chain

/-- How many steps the target node lies behind the node matched last.  Without a
mark the target is the node of the head, which is matched first. -/
def targetIndex (chain : Chain) : Nat :=
  let marks := chain.segments.map (·.target)
  marks.length - 1 - (if marks.contains true then marks.idxOf true else 0)

/-- Index keys that every node the head accepts answers to. -/
def indexKeys (chain : Chain) : List IndexKey := chain.head.predicate.indexKeys

/-- The index key of a chain that has exactly one. -/
def soleKey? (chain : Chain) : Option IndexKey :=
  match chain.indexKeys with
  | [key] => some key
  | _ => none

/-- Whether the head accepts nothing but the root of a tree. -/
def isRootAnchored (chain : Chain) : Bool :=
  chain.head.predicate.conjuncts.any Comparison.saysOrphan

/-- Whether matching revisits the structure of the tree. -/
def revisitsTree (chain : Chain) : Bool :=
  chain.isLinked || chain.segments.any Segment.isStructural

end Chain

/-- How a query may find the nodes to start from. -/
structure QueryOptions where
  /-- Look up the index key of a head that has exactly one. -/
  quickFind : Bool
  /-- Look up all index keys of the head, and those behind descendant connectors. -/
  fastQuery : Bool
  deriving DecidableEq, Repr

instance : Inhabited QueryOptions := ⟨⟨false, false⟩⟩

namespace Chain

/-- The keys that answer an unbounded descendant connector in place of a walk. -/
def connectionKeys (connector : Connector) (reach : Window) (rest : Chain) :
    List IndexKey :=
  if connector = .descendant ∧ reach = .unbounded then rest.indexKeys else []

/-- Whether the start nodes of a query come from the index. -/
def isSeeded (chain : Chain) (options : QueryOptions) : Bool :=
  (options.fastQuery && !chain.indexKeys.isEmpty) ||
    (options.quickFind && chain.soleKey?.isSome)

/-- Whether a query may have to walk whole subtrees. -/
def isSlow (chain : Chain) (options : QueryOptions) : Bool :=
  (options.quickFind && chain.soleKey?.isNone && !chain.isRootAnchored) ||
    ((!options.fastQuery || chain.indexKeys.isEmpty) && !chain.isRootAnchored) ||
    chain.connections.any fun (connector, reach, rest) =>
      connector = .descendant &&
        !(options.fastQuery && !(connectionKeys connector reach rest).isEmpty)

end Chain

end TreeSelector

import TreeSelector.Language.Analysis
import TreeSelector.Language.Printer

/-!
# What does not depend on spans

The text of a chain and everything that is told about it before it is matched are the
same for two chains that differ in nothing but spans.
-/

namespace TreeSelector

namespace Operand

mutual

@[simp]
theorem render_unplaced : (operand : Operand) → operand.unplaced.render = operand.render
  | null _ | boolean _ _ | integer _ _ | text _ _ _ | reference _ _ => rfl
  | member object _ _ => by simp [unplaced, render, render_unplaced object]
  | call _ _ arguments _ => by simp [unplaced, render, renderAll_unplaced arguments]
  | invoke object _ _ arguments _ => by
      simp [unplaced, render, render_unplaced object, renderAll_unplaced arguments]

theorem renderAll_unplaced : (operands : List Operand) →
    renderAll (unplacedAll operands) = renderAll operands
  | [] => rfl
  | [operand] => by simp [unplacedAll, renderAll, render_unplaced operand]
  | operand :: second :: operands => by
      have others := renderAll_unplaced (second :: operands)
      rw [unplacedAll] at others
      simp [unplacedAll, renderAll, render_unplaced operand, others]

end

mutual

@[simp]
theorem isStructural_unplaced : (operand : Operand) →
    operand.unplaced.isStructural = operand.isStructural
  | null _ | boolean _ _ | integer _ _ | text _ _ _ | reference _ _ => rfl
  | member object _ _ => by simp [unplaced, isStructural, isStructural_unplaced object]
  | call _ _ arguments _ => by simp [unplaced, isStructural, anyStructural_unplaced arguments]
  | invoke object _ _ arguments _ => by
      simp [unplaced, isStructural, isStructural_unplaced object,
        anyStructural_unplaced arguments]

theorem anyStructural_unplaced : (operands : List Operand) →
    anyStructural (unplacedAll operands) = anyStructural operands
  | [] => rfl
  | operand :: operands => by
      simp [unplacedAll, anyStructural, isStructural_unplaced operand,
        anyStructural_unplaced operands]

end

end Operand

namespace Comparison

variable (comparison : Comparison)

@[simp]
theorem render_unplaced : comparison.unplaced.render = comparison.render := by
  simp [unplaced, render]

@[simp]
theorem indexKey?_unplaced : comparison.unplaced.indexKey? = comparison.indexKey? := by
  obtain ⟨left, relation, right, span⟩ := comparison
  cases left with
  | reference name place => cases name <;> cases right <;> rfl
  | _ => cases right <;> rfl

@[simp]
theorem saysOrphan_unplaced : comparison.unplaced.saysOrphan = comparison.saysOrphan := by
  obtain ⟨left, relation, right, span⟩ := comparison
  cases left <;> cases right <;> rfl

end Comparison

namespace Predicate

@[simp]
theorem precedence_unplaced (predicate : Predicate) :
    predicate.unplaced.precedence = predicate.precedence := by
  cases predicate <;> rfl

@[simp]
theorem render_unplaced (predicate : Predicate) :
    predicate.unplaced.render = predicate.render := by
  induction predicate with
  | compare comparison => exact comparison.render_unplaced
  | and left right hypothesis hypothesis' => simp [unplaced, render, hypothesis, hypothesis']
  | or left right hypothesis hypothesis' => simp [unplaced, render, hypothesis, hypothesis']

@[simp]
theorem indexKeys_unplaced (predicate : Predicate) :
    predicate.unplaced.indexKeys = predicate.indexKeys := by
  induction predicate with
  | compare comparison => simp [unplaced, indexKeys]
  | and left right hypothesis hypothesis' => simp [unplaced, indexKeys, hypothesis, hypothesis']
  | or left right hypothesis hypothesis' => simp [unplaced, indexKeys, hypothesis, hypothesis']

@[simp]
theorem comparisons_unplaced (predicate : Predicate) :
    predicate.unplaced.comparisons = predicate.comparisons.map Comparison.unplaced := by
  induction predicate with
  | compare comparison => rfl
  | and left right hypothesis hypothesis' => simp [unplaced, comparisons, hypothesis, hypothesis']
  | or left right hypothesis hypothesis' => simp [unplaced, comparisons, hypothesis, hypothesis']

@[simp]
theorem conjuncts_unplaced (predicate : Predicate) :
    predicate.unplaced.conjuncts = predicate.conjuncts.map Comparison.unplaced := by
  induction predicate with
  | compare comparison => rfl
  | and left right hypothesis hypothesis' => simp [unplaced, conjuncts, hypothesis, hypothesis']
  | or left right _ _ => rfl

end Predicate

namespace Segment

variable (segment : Segment)

@[simp]
theorem render_unplaced : segment.unplaced.render = segment.render := by
  have same : segment.unplaced.predicate.render = segment.predicate.render :=
    segment.predicate.render_unplaced
  unfold render
  rw [same]
  rfl

@[simp]
theorem isStructural_unplaced : segment.unplaced.isStructural = segment.isStructural := by
  simp [unplaced, isStructural, Function.comp_def, Comparison.unplaced]

end Segment

namespace Chain

@[simp]
theorem segments_unplaced (chain : Chain) :
    chain.unplaced.segments = chain.segments.map Segment.unplaced := by
  induction chain with
  | last segment => rfl
  | link segment connector rest hypothesis => simp [unplaced, segments, hypothesis]

@[simp]
theorem head_unplaced (chain : Chain) : chain.unplaced.head = chain.head.unplaced := by
  cases chain <;> rfl

@[simp]
theorem isLinked_unplaced (chain : Chain) : chain.unplaced.isLinked = chain.isLinked := by
  cases chain <;> rfl

@[simp]
theorem render_unplaced (chain : Chain) : chain.unplaced.render = chain.render := by
  induction chain with
  | last segment => exact segment.render_unplaced
  | link segment connector rest hypothesis => simp [unplaced, render, hypothesis]

@[simp]
theorem targetIndex_unplaced (chain : Chain) :
    chain.unplaced.targetIndex = chain.targetIndex := by
  simp [targetIndex, Function.comp_def, Segment.unplaced]

@[simp]
theorem indexKeys_unplaced (chain : Chain) : chain.unplaced.indexKeys = chain.indexKeys := by
  simp [indexKeys, Segment.unplaced]

@[simp]
theorem isRootAnchored_unplaced (chain : Chain) :
    chain.unplaced.isRootAnchored = chain.isRootAnchored := by
  simp [isRootAnchored, Segment.unplaced, Function.comp_def]

@[simp]
theorem revisitsTree_unplaced (chain : Chain) :
    chain.unplaced.revisitsTree = chain.revisitsTree := by
  simp [revisitsTree, Function.comp_def]

/-- What does not depend on spans is the same for chains that agree up to spans. -/
theorem eq_of_unplaced {α : Type} {tell : Chain → α}
    (blind : ∀ chain, tell chain.unplaced = tell chain) {chain chain' : Chain}
    (same : chain.unplaced = chain'.unplaced) : tell chain = tell chain' := by
  rw [← blind chain, same, blind chain']

end Chain

end TreeSelector

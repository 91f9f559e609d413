import TreeSelector.Language.Analysis
import TreeSelector.Proofs.Language.Names

/-!
# Structural names

Whether matching revisits the structure of a tree is decided by looking for structural
names.  They are found wherever a name occurs, in arguments too; a head that accepts
nothing but the root of a tree has one of them.
-/

namespace TreeSelector

namespace Operand

mutual

theorem isStructural_eq : (operand : Operand) →
    operand.isStructural = operand.names.any Name.isStructural
  | null _ | boolean _ _ | integer _ _ | text _ _ _ => by
      rw [isStructural, names, parts]
      rfl
  | reference name span => by
      rw [isStructural, names_reference, List.any_cons, List.any_nil, Bool.or_false]
  | member object property span => by
      rw [isStructural, names_member, List.any_cons, isStructural_eq object]
  | call function functionSpan arguments span => by
      rw [isStructural, names_call, List.any_cons, anyStructural_eq arguments]
  | invoke object method methodSpan arguments span => by
      rw [isStructural, names_invoke, List.any_cons, List.any_append, isStructural_eq object,
        anyStructural_eq arguments, Bool.or_assoc]

theorem anyStructural_eq : (operands : List Operand) →
    anyStructural operands = (namesOfAll operands).any Name.isStructural
  | [] => by
      rw [anyStructural, namesOfAll, partsOfAll]
      rfl
  | operand :: operands => by
      rw [anyStructural, namesOfAll_cons, List.any_append, isStructural_eq operand,
        anyStructural_eq operands]

end

end Operand

namespace Comparison

theorem any_names_isStructural (comparison : Comparison) :
    comparison.names.any Name.isStructural =
      (comparison.left.isStructural || comparison.right.isStructural) := by
  rw [names, List.any_append, Operand.isStructural_eq, Operand.isStructural_eq]

/-- To say that there is no parent is to name it. -/
theorem isStructural_of_saysOrphan {comparison : Comparison}
    (orphan : comparison.saysOrphan = true) :
    (comparison.left.isStructural || comparison.right.isStructural) = true := by
  have structural : ∀ {name : Name} {span : Span}, (name == .known .parent) = true →
      (Operand.reference name span).isStructural = true := by
    intro name span named
    rw [eq_of_beq named, Operand.isStructural]
    rfl
  have asked := (Bool.and_eq_true_iff.mp orphan).2
  split at asked
  · rename_i left _
    rw [left, structural asked, Bool.true_or]
  · rename_i _ right
    rw [right, structural asked, Bool.or_true]
  · cases asked

end Comparison

namespace Predicate

theorem conjuncts_subset (predicate : Predicate) :
    predicate.conjuncts ⊆ predicate.comparisons := by
  induction predicate with
  | compare comparison => exact List.Subset.refl _
  | and left right hypothesis hypothesis' =>
      exact List.append_subset.mpr ⟨List.subset_append_of_subset_left _ hypothesis,
        List.subset_append_of_subset_right _ hypothesis'⟩
  | or left right => exact List.nil_subset _

end Predicate

theorem Segment.isStructural_eq (segment : Segment) :
    segment.isStructural = segment.predicate.names.any Name.isStructural := by
  rw [isStructural, Predicate.names, List.any_flatMap]
  congr 1
  funext comparison
  rw [Comparison.any_names_isStructural]

namespace Chain

variable {chain : Chain}

/-- Matching that does not revisit the tree is matching a single segment. -/
theorem exists_segment_of_revisitsTree (once : chain.revisitsTree = false) :
    ∃ segment, chain = last segment ∧ segment.isStructural = false := by
  cases chain with
  | last segment => exact ⟨segment, rfl, by simpa [revisitsTree, isLinked, segments] using once⟩
  | link segment connector rest => simp [revisitsTree, isLinked] at once

theorem isRootAnchored_of_revisitsTree (once : chain.revisitsTree = false) :
    chain.isRootAnchored = false := by
  obtain ⟨segment, rfl, plain⟩ := exists_segment_of_revisitsTree once
  rw [Bool.eq_false_iff, isRootAnchored, ne_eq, List.any_eq_true]
  rintro ⟨comparison, member, orphan⟩
  have found : segment.isStructural = true := List.any_eq_true.mpr
    ⟨comparison, segment.predicate.conjuncts_subset member,
      Comparison.isStructural_of_saysOrphan orphan⟩
  rw [plain] at found
  cases found

end Chain

end TreeSelector

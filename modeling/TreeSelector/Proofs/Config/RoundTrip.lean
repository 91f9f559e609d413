import TreeSelector.Config.Codec
import TreeSelector.Proofs.Json.Records

/-!
# Configurations and captured trees read back

The text that is written for a configuration, for its timing or for a captured tree reads back to
it.  A field that is left out when it is missing is missing in what is read as well; children are
left out when there are none; and every other field is written, whatever its default.
-/

namespace TreeSelector

open Json

section Configurations

theorem ResetScope.decodes :
    Decodes (toAlternative? ResetScope.ofTitle?) fun scope => .string scope.title :=
  decodes_title fun scope => by cases scope <;> rfl

theorem RuleAction.decodes :
    Decodes (toAlternative? RuleAction.ofTitle?) fun action => .string action.title :=
  decodes_title fun action => by cases action <;> rfl

theorem RuleConfig.decodes : Decodes RuleConfig.ofJson? RuleConfig.toJson where
  reads rule := by
    simp only [ofJson?, toJson]
    rw [members?_of_namesWithin]
    · -- the members first: simp would go through all fields again for each that it reads
      rw [Option.bind_eq_bind, Option.bind_some]
      simp only [required, fieldOr, optional_eq, List.cons_append, List.nil_append,
        List.append_assoc, member?_append, member?_cons, member?_nil, member?_unlessMissing,
        String.reduceEq, ↓reduceIte, Option.or_some, Option.none_or, Option.or_none,
        Option.getD_none, decodes_string.reads, decodes_string.contentOf?_map,
        decodes_string.list.reads, decodes_boolean.reads, decodes_int32.reads,
        decodes_uint32.contentOf?_map, decodes_uint64.contentOf?_map, ResetScope.decodes.reads,
        RuleAction.decodes.reads, Option.bind_eq_bind, Option.bind_some, Option.pure_def]
    · decide
    · exact (NamesWithin.all [("key", .string rule.key)])
        |>.append (.unlessMissing "name" _ _) |>.append (.unlessMissing "category" _ _)
        |>.append (.unlessMissing "appId" _ _) |>.append (.all _)
        |>.append (.unlessMissing "matchDelay" _ _) |>.append (.unlessMissing "actionDelay" _ _)
        |>.append (.unlessMissing "actionCd" _ _) |>.append (.unlessMissing "actionMaximum" _ _)
        |>.append (.unlessMissing "matchTime" _ _) |>.append (.unlessMissing "forcedTime" _ _)
        |>.append (.all _)
  written _ := Json.noConfusion

theorem RuleConfig.toJson_fits (rule : RuleConfig) : Fits 2 rule.toJson := by
  refine fits_object ?_
  simp only [allFit_append, allFit_cons, allFit_nil, allFit_unlessMissing, fits_string,
    fits_boolean, fits_integer, fits_ofNat, fits_ofList, implies_true, and_self]

theorem EngineConfig.decodes : Decodes EngineConfig.ofJson? EngineConfig.toJson where
  reads config := by
    simp only [ofJson?, toJson]
    rw [members?_of_namesWithin]
    · simp [fieldOr, member?_cons, decodes_boolean.reads, decodes_string.list.reads,
        RuleConfig.decodes.list.reads]
    · decide
    · exact .all _
  written _ := Json.noConfusion

theorem EngineConfig.toJson_fits (config : EngineConfig) : Fits 4 config.toJson := by
  refine fits_object ?_
  simp only [allFit_cons, allFit_nil, fits_boolean, fits_string, fits_ofList,
    RuleConfig.toJson_fits, implies_true, and_self]

theorem Timing.decodes : Decodes Timing.ofJson? Timing.toJson where
  reads timing := by
    simp only [ofJson?, toJson]
    rw [members?_of_namesWithin]
    · simp [fieldOr, member?_cons, decodes_uint64.reads]
    · decide
    · exact .all _
  written _ := Json.noConfusion

theorem Timing.toJson_fits (timing : Timing) : Fits 1 timing.toJson := by
  refine fits_object ?_
  simp only [allFit_cons, allFit_nil, fits_ofNat, and_self]

end Configurations

section Trees

namespace NodeData

theorem toMembers_namesWithin (data : NodeData) :
    NamesWithin data.toMembers fieldNames.dropLast :=
  (NamesWithin.unlessMissing "id" _ _)
    |>.append (.unlessMissing "vid" _ _) |>.append (.unlessMissing "name" _ _)
    |>.append (.unlessMissing "text" _ _) |>.append (.unlessMissing "desc" _ _)
    |>.append (.all _) |>.append (.unlessMissing "appId" _ _)

theorem toMembers_fit (data : NodeData) : AllFit 0 data.toMembers := by
  simp only [toMembers, allFit_append, allFit_cons, allFit_nil, allFit_unlessMissing, fits_string,
    fits_boolean, fits_integer, implies_true, and_self]

/-- The data of a node is read back from its members, whatever children are listed with them. -/
theorem ofMembers?_toMembers (data : NodeData) (children : Option (List Json)) :
    ofMembers? (data.toMembers ++ unlessMissing "children" Json.array children) = some data := by
  simp [ofMembers?, toMembers, fieldOr, optional_eq, member?_cons, member?_append,
    member?_unlessMissing, decodes_string.contentOf?_map, decodes_boolean.reads,
    decodes_int32.reads]

end NodeData

namespace CapturedNode

/-- The children as they are listed in a node's object: not at all if there are none. -/
def listed (children : List CapturedNode) : Option (List Json) :=
  if children.isEmpty then none else some (allToJson children)

theorem toJson_node (data : NodeData) (children : List CapturedNode) :
    toJson (.node data children) =
      .object (data.toMembers ++ unlessMissing "children" Json.array (listed children)) := by
  cases children <;> simp [toJson, listed, unlessMissing]

theorem childrenOf?_cons_of_ne {name : String} {value : Json} {members : List (String × Json)}
    (other : name ≠ "children") : childrenOf? ((name, value) :: members) = childrenOf? members := by
  cases value <;> simp [childrenOf?, other]

theorem childrenOf?_append {members others : List (String × Json)}
    (absent : "children" ∉ members.map Prod.fst) :
    childrenOf? (members ++ others) = childrenOf? others := by
  induction members with
  | nil => rfl
  | cons member members hypothesis =>
      obtain ⟨name, value⟩ := member
      rw [List.map_cons, List.mem_cons, not_or] at absent
      rw [List.cons_append, childrenOf?_cons_of_ne (Ne.symm absent.1), hypothesis absent.2]

theorem childrenOf?_toMembers (data : NodeData) (children : List CapturedNode)
    (read : allOf? (allToJson children) = some children) :
    childrenOf? (data.toMembers ++ unlessMissing "children" Json.array (listed children)) =
      some children := by
  have absent : "children" ∉ data.toMembers.map Prod.fst := fun present =>
    absurd (data.toMembers_namesWithin.subset present) (by decide)
  rw [childrenOf?_append absent]
  cases children with
  | nil => simp [listed, unlessMissing, childrenOf?]
  | cons first others => simp [listed, unlessMissing, childrenOf?, read]

mutual

theorem ofJson?_toJson : ∀ node : CapturedNode, ofJson? (toJson node) = some node
  | .node data children => by
      have known : NamesWithin
          (data.toMembers ++ unlessMissing "children" Json.array (listed children))
          NodeData.fieldNames :=
        data.toMembers_namesWithin.append (.unlessMissing "children" _ _)
      rw [toJson_node, ofJson?, members?_of_namesWithin (by decide) known]
      simp [NodeData.ofMembers?_toMembers,
        childrenOf?_toMembers data children (allOf?_allToJson children)]

theorem allOf?_allToJson : ∀ nodes : List CapturedNode, allOf? (allToJson nodes) = some nodes
  | [] => by simp [allToJson, allOf?]
  | first :: others => by
      simp [allToJson, allOf?, ofJson?_toJson first, allOf?_allToJson others]

end

mutual

theorem toJson_isIntegral : ∀ node : CapturedNode, (toJson node).IsIntegral
  | .node data children => by
      have items := allToJson_isIntegral children
      rw [toJson_node]
      refine .object (List.forall_mem_append.mpr ⟨?_, ?_⟩)
      · exact fun member present => (data.toMembers_fit member present).integral
      · refine forall_mem_unlessMissing ?_ "children"
        intro present some
        obtain ⟨_, same⟩ := Option.ite_none_left_eq_some.mp some
        exact Option.some.inj same ▸ .array items

theorem allToJson_isIntegral : ∀ nodes : List CapturedNode,
    ∀ item ∈ allToJson nodes, item.IsIntegral
  | [] => by simp [allToJson]
  | first :: others => by
      simpa [allToJson] using ⟨toJson_isIntegral first, allToJson_isIntegral others⟩

end

end CapturedNode

end Trees

/-- A configuration, a timing and a captured tree are read back from the texts that are written
for them.  The reader bounds how deep a tree may nest; the others stay below that bound. -/
theorem configurations_and_trees_read_back (config : EngineConfig) (timing : Timing)
    (node : CapturedNode) :
    EngineConfig.read? config.toJson.render = some config ∧
      Timing.read? timing.toJson.render = some timing ∧
      (node.toJson.nesting ≤ 127 → CapturedNode.read? node.toJson.render = some node) := by
  refine ⟨?_, ?_, fun shallow => ?_⟩
  · rw [EngineConfig.read?, config.toJson_fits.parse?_render (by decide)]
    exact EngineConfig.decodes.reads config
  · rw [Timing.read?, timing.toJson_fits.parse?_render (by decide)]
    exact Timing.decodes.reads timing
  · rw [CapturedNode.read?, parse?_render node.toJson_isIntegral shallow]
    exact node.ofJson?_toJson

example : (CapturedNode.node {} [.node { text := some "Skip" } []]).toJson.nesting = 3 := by
  decide +kernel

end TreeSelector

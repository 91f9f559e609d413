import TreeSelector.Config.Model
import TreeSelector.Json.Parser
import TreeSelector.Json.Printer
import TreeSelector.Json.Record
import TreeSelector.Tree.Captured

/-!
# Configurations and captured trees as JSON

The fields of each record under their JSON names.  A decoded object may leave out
whatever has a default; an encoded one leaves out what is missing.
-/

namespace TreeSelector

open Json

section Enumerations

def ResetScope.title : ResetScope → String
  | .app => "app"
  | .activity => "activity"

def ResetScope.ofTitle? : String → Option ResetScope
  | "app" => some .app
  | "activity" => some .activity
  | _ => none

def RuleAction.title : RuleAction → String
  | .click => "click"
  | .longClick => "longClick"
  | .back => "back"
  | .none => "none"

def RuleAction.ofTitle? : String → Option RuleAction
  | "click" => some .click
  | "longClick" => some .longClick
  | "back" => some .back
  | "none" => some .none
  | _ => Option.none

end Enumerations

namespace RuleConfig

def fieldNames : List String :=
  ["key", "name", "category", "appId", "selector", "excludeSelectors", "activityIds",
    "excludeActivityIds", "excludeAppIds", "matchDelay", "actionDelay", "actionCd",
    "actionMaximum", "matchTime", "forcedTime", "resetMatch", "quickFind", "fastQuery",
    "action", "order", "enable"]

def ofJson? (value : Json) : Option RuleConfig := do
  let members ← value.members? fieldNames
  let texts := toList? toString?
  return {
    key := ← required toString? members "key"
    name := ← optional toString? members "name"
    category := ← optional toString? members "category"
    appId := ← optional toString? members "appId"
    selector := ← required toString? members "selector"
    excludeSelectors := ← fieldOr [] texts members "excludeSelectors"
    activityIds := ← fieldOr [] texts members "activityIds"
    excludeActivityIds := ← fieldOr [] texts members "excludeActivityIds"
    excludeAppIds := ← fieldOr [] texts members "excludeAppIds"
    matchDelay := ← optional toUInt64? members "matchDelay"
    actionDelay := ← optional toUInt64? members "actionDelay"
    actionCooldown := ← optional toUInt64? members "actionCd"
    actionMaximum := ← optional toUInt32? members "actionMaximum"
    matchTime := ← optional toUInt64? members "matchTime"
    forcedTime := ← optional toUInt64? members "forcedTime"
    resetMatch := ← fieldOr .app (toAlternative? ResetScope.ofTitle?) members "resetMatch"
    quickFind := ← fieldOr false toBool? members "quickFind"
    fastQuery := ← fieldOr false toBool? members "fastQuery"
    action := ← fieldOr .click (toAlternative? RuleAction.ofTitle?) members "action"
    order := ← fieldOr 0 toInt32? members "order"
    enable := ← fieldOr true toBool? members "enable" }

def toJson (rule : RuleConfig) : Json :=
  let texts := Json.ofList Json.string
  let millis (value : UInt64) := Json.ofNat value.toNat
  .object <|
    [("key", .string rule.key)] ++
    unlessMissing "name" .string rule.name ++
    unlessMissing "category" .string rule.category ++
    unlessMissing "appId" .string rule.appId ++
    [("selector", .string rule.selector),
      ("excludeSelectors", texts rule.excludeSelectors),
      ("activityIds", texts rule.activityIds),
      ("excludeActivityIds", texts rule.excludeActivityIds),
      ("excludeAppIds", texts rule.excludeAppIds)] ++
    unlessMissing "matchDelay" millis rule.matchDelay ++
    unlessMissing "actionDelay" millis rule.actionDelay ++
    unlessMissing "actionCd" millis rule.actionCooldown ++
    unlessMissing "actionMaximum" (fun value => Json.ofNat value.toNat) rule.actionMaximum ++
    unlessMissing "matchTime" millis rule.matchTime ++
    unlessMissing "forcedTime" millis rule.forcedTime ++
    [("resetMatch", .string rule.resetMatch.title),
      ("quickFind", .boolean rule.quickFind),
      ("fastQuery", .boolean rule.fastQuery),
      ("action", .string rule.action.title),
      ("order", .integer rule.order.toInt),
      ("enable", .boolean rule.enable)]

end RuleConfig

namespace EngineConfig

def fieldNames : List String :=
  ["enableMatch", "disabledCategories", "disabledRules", "ignoredAppIds", "rules"]

def ofJson? (value : Json) : Option EngineConfig := do
  let members ← value.members? fieldNames
  let texts := toList? toString?
  return {
    enableMatch := ← fieldOr true toBool? members "enableMatch"
    disabledCategories := ← fieldOr [] texts members "disabledCategories"
    disabledRules := ← fieldOr [] texts members "disabledRules"
    ignoredAppIds := ← fieldOr [] texts members "ignoredAppIds"
    rules := ← fieldOr [] (toList? RuleConfig.ofJson?) members "rules" }

def toJson (config : EngineConfig) : Json :=
  let texts := Json.ofList Json.string
  .object [
    ("enableMatch", .boolean config.enableMatch),
    ("disabledCategories", texts config.disabledCategories),
    ("disabledRules", texts config.disabledRules),
    ("ignoredAppIds", texts config.ignoredAppIds),
    ("rules", Json.ofList RuleConfig.toJson config.rules)]

def read? (text : String) : Option EngineConfig := (Json.parse? text).bind ofJson?

end EngineConfig

namespace Timing

def fieldNames : List String :=
  ["recheckDelay", "identityTimeout", "appIdTtl", "triggerRecheckWindow",
    "activityCapacity"]

def ofJson? (value : Json) : Option Timing := do
  let members ← value.members? fieldNames
  return {
    recheckDelay := ← fieldOr 300 toUInt64? members "recheckDelay"
    identityTimeout := ← fieldOr 100 toUInt64? members "identityTimeout"
    appIdTtl := ← fieldOr 50 toUInt64? members "appIdTtl"
    triggerRecheckWindow := ← fieldOr 3000 toUInt64? members "triggerRecheckWindow"
    activityCapacity := ← fieldOr 128 toUInt64? members "activityCapacity" }

def toJson (timing : Timing) : Json :=
  let word (value : UInt64) := Json.ofNat value.toNat
  .object [
    ("recheckDelay", word timing.recheckDelay),
    ("identityTimeout", word timing.identityTimeout),
    ("appIdTtl", word timing.appIdTtl),
    ("triggerRecheckWindow", word timing.triggerRecheckWindow),
    ("activityCapacity", word timing.activityCapacity)]

def read? (text : String) : Option Timing := (Json.parse? text).bind ofJson?

end Timing

namespace NodeData

def fieldNames : List String :=
  ["id", "vid", "name", "text", "desc", "clickable", "focusable", "checkable", "checked",
    "editable", "longClickable", "visibleToUser", "left", "top", "right", "bottom",
    "appId", "children"]

def ofMembers? (members : List (String × Json)) : Option NodeData := do
  return {
    id := ← optional toString? members "id"
    vid := ← optional toString? members "vid"
    className := ← optional toString? members "name"
    text := ← optional toString? members "text"
    desc := ← optional toString? members "desc"
    clickable := ← fieldOr false toBool? members "clickable"
    focusable := ← fieldOr false toBool? members "focusable"
    checkable := ← fieldOr false toBool? members "checkable"
    checked := ← fieldOr false toBool? members "checked"
    editable := ← fieldOr false toBool? members "editable"
    longClickable := ← fieldOr false toBool? members "longClickable"
    visibleToUser := ← fieldOr true toBool? members "visibleToUser"
    left := ← fieldOr 0 toInt32? members "left"
    top := ← fieldOr 0 toInt32? members "top"
    right := ← fieldOr 0 toInt32? members "right"
    bottom := ← fieldOr 0 toInt32? members "bottom"
    appId := ← optional toString? members "appId" }

/-- The members of a node's object, its children aside. -/
def toMembers (data : NodeData) : List (String × Json) :=
  unlessMissing "id" .string data.id ++
  unlessMissing "vid" .string data.vid ++
  unlessMissing "name" .string data.className ++
  unlessMissing "text" .string data.text ++
  unlessMissing "desc" .string data.desc ++
  [("clickable", .boolean data.clickable), ("focusable", .boolean data.focusable),
    ("checkable", .boolean data.checkable), ("checked", .boolean data.checked),
    ("editable", .boolean data.editable), ("longClickable", .boolean data.longClickable),
    ("visibleToUser", .boolean data.visibleToUser), ("left", .integer data.left.toInt),
    ("top", .integer data.top.toInt), ("right", .integer data.right.toInt),
    ("bottom", .integer data.bottom.toInt)] ++
  unlessMissing "appId" .string data.appId

end NodeData

namespace CapturedNode

mutual

def ofJson? : Json → Option CapturedNode
  | .object members => do
      let checked ← Json.members? NodeData.fieldNames (.object members)
      let data ← NodeData.ofMembers? checked
      let children ← childrenOf? members
      return .node data children
  | _ => none

/-- The children among the members of an object; there are none if they are not
listed. -/
def childrenOf? : List (String × Json) → Option (List CapturedNode)
  | [] => some []
  | (name, value) :: members =>
      if name = "children" then
        match value with
        | .array items => allOf? items
        | _ => none
      else childrenOf? members

def allOf? : List Json → Option (List CapturedNode)
  | [] => some []
  | item :: items => do
      let first ← ofJson? item
      let others ← allOf? items
      return first :: others

end

mutual

def toJson : CapturedNode → Json
  | .node data children =>
      .object (data.toMembers ++
        (if children.isEmpty then [] else [("children", .array (allToJson children))]))

def allToJson : List CapturedNode → List Json
  | [] => []
  | first :: others => toJson first :: allToJson others

end

def read? (text : String) : Option CapturedNode := (Json.parse? text).bind ofJson?

end CapturedNode

end TreeSelector

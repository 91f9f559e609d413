import TreeSelector.Config.Codec
import TreeSelector.Engine.Codec
import TreeSelector.Scheduler.World

/-!
# Events as JSON

What the scheduler shows to the outside, as JSON.
-/

namespace TreeSelector

open Json

def ActionReport.toJson (report : ActionReport) : Json :=
  .object [
    ("action", .string report.action.title),
    ("rule", .string report.rule),
    ("generation", ofNat report.generation),
    ("result", .string ((report.failure.map ActionError.message).getD "ok"))]

def SchedulerEvent.toJson : SchedulerEvent → Json
  | .passCompleted report => report.toJson
  | .action report => report.toJson

namespace World

/-- What happened since it was last taken note of, in order. -/
def report (world : World) : Json :=
  let asked := world.worker.asked
  .object [
    ("now", ofNat world.now),
    ("events", ofList (fun (now, event) => .array [ofNat now, event.toJson])
      world.events.reverse),
    ("performed", ofList (fun (now, node, action) =>
      .array [ofNat now, ofNat node, .string (RuleAction.title action)])
      world.performed.reverse),
    ("asked", ofList ofNat [asked.activeApp, asked.top, asked.isActivity])]

end World

end TreeSelector

import TreeSelector.Engine.Pass
import TreeSelector.Json.Record

/-!
# Reports as JSON

What is in front and what a pass did, as JSON objects.
-/

namespace TreeSelector

open Json

def Identity.toJson (identity : Identity) : Json :=
  .object [
    ("appId", .string identity.appId),
    ("activityId", ofOption .string identity.activityId),
    ("number", ofNat identity.number)]

def PassTrigger.title : PassTrigger → String
  | .notification => "notification"
  | .delay => "delay"
  | .recheck => "recheck"
  | .config => "config"
  | .identityMismatch => "identityMismatch"

def PassReport.toJson (report : PassReport) : Json :=
  .object [
    ("pass", ofNat report.pass),
    ("trigger", .string report.trigger.title),
    ("identity", report.identity.toJson),
    ("generation", ofNat report.generation),
    ("events", ofNat report.events),
    ("sources", ofNat report.sources),
    ("fromRoot", .boolean report.fromRoot),
    ("evaluated", ofList .string report.evaluated),
    ("matched", ofList .string report.matched),
    ("acted", ofOption .string report.acted),
    ("mismatch", .boolean report.mismatch)]

end TreeSelector

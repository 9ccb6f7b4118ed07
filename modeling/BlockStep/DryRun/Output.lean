import BlockStep.Alarm
import BlockStep.Document.Print
import BlockStep.DryRun
import BlockStep.History.Document
import BlockStep.Snapshot.Document

namespace BlockStep.DryRun

namespace Result

/-- The history with the units and definitions of its columns. -/
def historyDocument (h : History (Cell Float)) : Value :=
  .map [("definitions", .map ((History.definitionsOf h.names).map fun e => (e.1, .text e.2))),
    ("units", .text (History.unitsText h.names)), ("columns", .map (h.document Cell.value))]

def snapshotDocument : SnapshotFile Float → Value
  | .binary s => .map s.document
  | .json fields => .map (fields.map fun e => (e.1, e.2.value))

/-- The files of a run under their paths, each of which holds JSON. -/
def files (r : Result) : Keyed String :=
  let inDirectory (name : String) (v : Value) := (Text.Path.join r.directory name, v.indented 0)
  (r.history.map fun h => inDirectory "history.parquet" (historyDocument h)).toList
    ++ [inDirectory "summary.json" (.map r.summary)]
    ++ r.snapshots.map fun e => (e.1, (snapshotDocument e.2).indented 0)

end Result

/-- The records from a level on, and the warnings unless they are suppressed with the level. -/
def shown (least : Level) (events : List (Event Float)) : List String :=
  (events.filter fun e => least.rank ≤ e.level.rank && (e.concern?.isNone || least == .info)).map
    fun e => e.level.name ++ ":" ++ e.channel ++ ":" ++ e.text

def usage : String :=
  "usage: --config CONFIG --particles PARTICLES [--cycles CYCLES] [--quiet | --no-quiet] "
    ++ "[--override PATH=VALUE [PATH=VALUE ...]] [--overrides-file FILE]"

def faultText (e : Fault) : String :=
  let message := e.message.getD "the input has no usable form"
  match e.alarm? with
  | some a => a.short message
  | none => message

def complaintText (c : Complaint) : String :=
  let place := c.place.map fun p => match p with
    | .section name => name
    | .index i => toString i
  String.intercalate "." place ++ ": " ++ (c.objection.message?.getD c.objection.code)

namespace Refusal

def text : Refusal → String
  | .usage => DryRun.usage
  | .arguments => DryRun.usage
  | .missingFile path => "no such file: " ++ path
  | .settings .malformed => "the settings file is not well formed"
  | .settings (.failed e) => faultText e
  | .settings (.objected cs) => String.intercalate "\n" (cs.map complaintText)
  | .failed e => faultText e

def exitCode : Refusal → Nat
  | .usage => 0
  | .arguments => 2
  | .missingFile _ | .settings _ | .failed _ => 1

end Refusal

end BlockStep.DryRun

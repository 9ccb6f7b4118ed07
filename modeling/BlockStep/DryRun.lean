import BlockStep.Arguments
import BlockStep.Clock
import BlockStep.Settings
import BlockStep.Stepper
import BlockStep.Store.Given

namespace BlockStep.DryRun

/-- The files that a run may read. -/
structure Files where
  texts : Keyed String
  /-- Particle columns. -/
  columns : Keyed (Keyed Value)

inductive Status where
  | ok
  | degenerateStep
deriving DecidableEq

namespace Status

def name : Status → String
  | ok => "ok"
  | degenerateStep => "degenerate_step"

def exitCode : Status → Nat
  | ok => 0
  | degenerateStep => 2

end Status

/-- What a run has done. -/
structure Result where
  status : Status
  /-- The least level of records that are shown. -/
  level : Level
  directory : String
  summary : Keyed Value
  /-- The history, if it is written. -/
  history : Option (History (Cell Float))
  snapshots : Archive Float

inductive Refusal where
  | usage
  | arguments
  | missingFile (path : String)
  | settings (r : Settings.Refusal)
  | failed (cause : Fault)

/-- The numbers of a finished run, in which `reported` cycles came to an end without a fault; the
entry that tells which kernels are at hand is left out. -/
def summaryOf {n : Nat} (u : Setup Float) (s : Stepper Float n) (status : Status) (reported : Nat) :
    Keyed Value :=
  [("status", .text status.name), ("cycles", .whole s.cycle), ("cycles_this_run", .whole reported),
    ("particles", .whole s.store.size), ("epoch", .whole s.current.epoch),
    ("local_tick", .whole s.current.localTick), ("scale_factor", .real s.scaleFactor),
    ("finished", .bool (Stepper.isFinished u s)), ("pm_start", .whole s.mesh.start),
    ("pm_step", .whole s.mesh.step), ("timebins", .whole u.bins),
    ("bin_count", .list (s.registry.count.toList.map .whole))]

/-- The overrides of all files and of the command line, in this order. -/
def overridesOf (files : Files) (a : Arguments) : Except Refusal (List String) := do
  let texts ← a.overrideFiles.mapM fun path =>
    match Keyed.lookup path files.texts with
    | some text => .ok (Override.ofLines text)
    | none => .error (.missingFile path)
  .ok (texts.flatten ++ a.overrides)

/-- The configuration that a command line names, and the number of overrides. -/
def configOf (files : Files) (a : Arguments) : Except Refusal (Config Float × List String) := do
  let overrides ← overridesOf files a
  let path := a.config.getD ""
  match Keyed.lookup path files.texts with
  | none => .error (.missingFile path)
  | some text =>
    match Settings.load path text overrides with
    | .ok c => .ok (c, overrides)
    | .error r => .error (.settings r)

def columnsOf (files : Files) (a : Arguments) : Except Refusal (Keyed Value) :=
  let path := a.particles.getD ""
  match Keyed.lookup path files.columns with
  | some columns => .ok columns
  | none => .error (.missingFile path)

/-- Reads the particles and makes everything that the run needs. -/
def prepare (c : Config Float) (path : String) (columns : Keyed Value) :
    Act Float Unit (Setup Float × Store Float) := do
  let store ← Store.ofColumns columns
  Act.tell (.storeLoaded store.size path)
  pure (← Setup.ofConfig c (.table KickTable.usualSamples) true (some (c.writer 0)), store)

/-- The history of a run that has cycles, if it is to be written. -/
def historyIf {n : Nat} (c : Config Float) (s : Stepper Float n) : Option (History (Cell Float)) :=
  if c.output.writesHistory && !s.rows.isEmpty then some (historyOf s.rows) else none

/-- Runs the cycles and sums them up. -/
def runCycles (u : Setup Float) (settings : String) (cycles : Int) :
    Act Float (Stepper Float u.bins) (Status × Nat) := do
  Act.tell (.stage Event.runChannel "start"
    [("config", .text settings), ("outdir", .text u.config.output.directory)])
  let (status, reported) ← fun s =>
    (Stepper.run u none cycles s).map fun o =>
      match o.result with
      | .ok reports => ⟨.ok (Status.ok, reports.length), o.state, o.events⟩
      | .error (.degenerateSteps count) =>
        ⟨.ok (Status.degenerateStep, 0), o.state,
          o.events.push (.runAborted ((Fault.degenerateSteps count).message.getD ""))⟩
      | .error e => ⟨.error e, o.state, o.events⟩
  let s ← Act.get
  Act.tell (.stage Event.runChannel "done"
    [("status", .text status.name), ("cycles", .whole s.cycle)])
  pure (status, reported)

/-- A run on one rank with everything that it tells. -/
def runAlone (c : Config Float) (a : Arguments) (columns : Keyed Value) :
    Except Refusal Result × List (Event Float) :=
  let quiet := a.quiet.getD c.output.quiet
  let prepared := (prepare c (a.particles.getD "") columns ()).alone
  let told := prepared.events.toList
  match prepared.result with
  | .error e => (.error (.failed e), told)
  | .ok (u, store) =>
    match Stepper.start u store with
    | .error e => (.error (.failed e), told)
    | .ok s =>
      let started := (Stepper.initBins u s).alone
      let told := told ++ started.events.toList
      match started.result with
      | .error e => (.error (.failed e), told)
      | .ok () =>
        let o := (runCycles u (a.config.getD "") a.cycles started.state).alone
        let told := told ++ o.events.toList
        match o.result with
        | .error e => (.error (.failed e), told)
        | .ok (status, reported) =>
          (.ok {
            status := status
            level := if quiet then .warning else .info
            directory := c.output.directory
            summary := summaryOf u o.state status reported
            history := historyIf c o.state
            snapshots := (u.writer.map o.state.archive).getD [] }, told)

/-- A dry run on a command line. -/
def run (files : Files) (args : List String) : Except Refusal Result × List (Event Float) :=
  match Arguments.parse args with
  | .help => (.error .usage, [])
  | .refused => (.error .arguments, [])
  | .accepted a =>
    match configOf files a with
    | .error r => (.error r, [])
    | .ok (c, overrides) =>
      let told := [Settings.told (a.config.getD "") overrides]
      match columnsOf files a with
      | .error r => (.error r, told)
      | .ok columns =>
        let (result, events) := runAlone c a columns
        (result, told ++ events)

namespace Result

/-- The path of a file without the directory that it is in. -/
def relative (directory path : String) : String :=
  let front := Text.Path.join directory ""
  if path.startsWith front then String.ofList (path.toList.drop front.length) else path

/-- The paths under the output directory in order. -/
def paths (r : Result) : List String :=
  ((if r.history.isSome then ["history.parquet"] else []) ++ ["summary.json"]
    ++ r.snapshots.names.map (relative r.directory)).mergeSort fun s t => !(t < s)

end Result

end BlockStep.DryRun

import BlockStep.Document.Print
import BlockStep.Fault
import BlockStep.Particle

namespace BlockStep

inductive Level where
  | debug
  | info
  | warning
  | error
deriving DecidableEq

namespace Level

def rank : Level → Nat
  | debug => 10
  | info => 20
  | warning => 30
  | error => 40

def name : Level → String
  | debug => "DEBUG"
  | info => "INFO"
  | warning => "WARNING"
  | error => "ERROR"

end Level

/-- Two kinds of warnings: questionable settings, and numbers near the limit of their use. -/
inductive Concern where
  | settings
  | numbers
deriving DecidableEq

inductive Event (α : Type) where
  | outputsIgnored (begin max : α) (outputs : List α)
  | timelineMade (epochs : Nat) (begin max : α) (timebase : Int)
  | tableMade (size : Nat) (first last : α)
  | columnsIgnored (names : List String)
  | storeLoaded (size : Nat) (path : String)
  | syncFound (current : Tick) (candidate : Int) (next : Tick)
  | recounted (active size : Nat)
  | synchronized (tick : Tick) (a : α) (active : Nat) (due : Int)
  | stepsDesired (size : Nat) (most least greatest : Int) (faults : Nat)
  | stepBad (p : Particle α) (ticks : Int) (length : α) (most : Int)
  | gasBad (p : Particle α)
  | stepsAssigned (size grown demoted faults : Nat)
  | kindMeasured (kind : Nat) (spacing split least a speed length : α)
  | meshEstimated (length most : α)
  | meshVanishes (length : α)
  | kicked (size gas floored : Nat) (inTurn : Bool)
  | meshKicked (start stop : Int) (factor : α)
  | glassMade (spacing greatest : α)
  | faultsSpotted (count : Int)
  | snapshotWritten (id : Int) (path : String)
  | stage (channel name : String) (details : List (String × Value))
  | endReached (cycles : Nat)
  | runAborted (message : String)
  | configRead (path : String) (overrides : Nat)

namespace Event

/-- The number under which a run's emergency snapshot is kept. -/
def emergencyId : Int := 999999

def level {α : Type} : Event α → Level
  | timelineMade .. | tableMade .. | syncFound .. | recounted .. | synchronized .. | stepsDesired ..
  | stepsAssigned .. | kicked .. | meshKicked .. | configRead .. => .debug
  | storeLoaded .. | kindMeasured .. | meshEstimated .. | glassMade .. | snapshotWritten ..
  | stage .. | endReached .. => .info
  | outputsIgnored .. | meshVanishes .. | columnsIgnored .. | stepBad .. | gasBad .. => .warning
  | faultsSpotted .. | runAborted .. => .error

/-- The concern of a warning; other events are log records. -/
def concern? {α : Type} : Event α → Option Concern
  | outputsIgnored .. => some .settings
  | meshVanishes .. => some .numbers
  | _ => none

/-- The channel of a dry run. -/
def runChannel : String := "kickstep.run"

/-- The channel that a record is filed under. -/
def channel {α : Type} : Event α → String
  | outputsIgnored .. | timelineMade .. => "kickstep.timeline"
  | tableMade .. => "kickstep.cosmology"
  | columnsIgnored .. | storeLoaded .. => "kickstep.particles"
  | syncFound .. => "kickstep.scheduler.sync"
  | recounted .. => "kickstep.scheduler.active"
  | stepsDesired .. | stepBad .. | gasBad .. => "kickstep.scheduler.policy"
  | stepsAssigned .. => "kickstep.scheduler.assign"
  | kindMeasured .. | meshEstimated .. | meshVanishes .. => "kickstep.scheduler.pm"
  | kicked .. | meshKicked .. | glassMade .. => "kickstep.scheduler.kick"
  | snapshotWritten .. => "kickstep.io.checkpoint"
  | configRead .. => "kickstep.config_utils"
  | synchronized .. | faultsSpotted .. | endReached .. => "kickstep.stepper"
  | runAborted .. => runChannel
  | stage channel .. => channel

def triple (v : Vec3 Float) : String :=
  "(" ++ String.intercalate "|" (v.toList.map Text.general) ++ ")"

def text : Event Float → String
  | outputsIgnored begin max outputs =>
    "ignoring output times outside (" ++ Text.general begin ++ ", " ++ Text.general max ++ "): "
      ++ Value.listed (.list (outputs.map .real))
  | timelineMade epochs begin max timebase =>
    "TimelineMap: " ++ toString epochs ++ " epoch(s) between a=" ++ Text.general begin ++ " and a="
      ++ Text.general max ++ ", timebase=" ++ toString timebase
  | tableMade size first last =>
    "KickFactorTable: " ++ toString size ++ " samples over log a in [" ++ Text.general first ++ ", "
      ++ Text.general last ++ "]"
  | columnsIgnored names =>
    "Ignoring unknown particle column(s): " ++ String.intercalate ", " names
  | storeLoaded size path => "Loaded " ++ toString size ++ " particles from " ++ path
  | syncFound current candidate next =>
    "find_next_sync: current=" ++ current.text ++ " local=" ++ Text.hex candidate ++ " next="
      ++ next.text
  | recounted active size =>
    "rebuild: " ++ toString active ++ " of " ++ toString size ++ " particles active"
  | synchronized tick a active due =>
    "synchronize: tick=" ++ tick.text ++ " a=" ++ Text.general a ++ " active=" ++ toString active
      ++ " force_updates=" ++ toString due
  | stepsDesired size most least greatest faults =>
    "desired_ticks: n=" ++ toString size ++ " max_ticks=" ++ Text.hex most ++ " min="
      ++ toString least ++ " max=" ++ toString greatest ++ " faults=" ++ toString faults
  | stepBad p ticks length most =>
    "Bad timestep (" ++ Text.hex ticks ++ ") assigned! id=" ++ toString p.id ++ " kind="
      ++ toString p.kind ++ " dloga=" ++ Text.general length ++ " max_ticks=" ++ Text.hex most
      ++ " pos=" ++ triple p.pos ++ " tree=" ++ triple p.gravAccel ++ " pm=" ++ triple p.meshAccel
  | gasBad p =>
    "hydro=" ++ triple p.hydroAccel ++ " density=" ++ Text.general p.density ++ " hsml="
      ++ Text.general p.smoothing ++ " energy=" ++ Text.general p.energy ++ " energy_rate="
      ++ Text.general p.energyRate
  | stepsAssigned size grown demoted faults =>
    "assign: n=" ++ toString size ++ " grown=" ++ toString grown ++ " demoted=" ++ toString demoted
      ++ " faults=" ++ toString faults
  | kindMeasured kind spacing split least a speed length =>
    "kind=" ++ toString kind ++ " (" ++ Kind.name kind ++ ") dmean=" ++ Text.general spacing
      ++ " asmth=" ++ Text.general split ++ " min_mass=" ++ Text.general least ++ " a="
      ++ Text.general a ++ " sqrt(<p^2>)=" ++ Text.general speed ++ " dlogmax="
      ++ Text.general length
  | meshEstimated length most =>
    "Maximal PM timestep: dloga = " ++ Text.general length ++ "  (" ++ Text.general most ++ ")"
  | meshVanishes length =>
    "long-range step estimate dloga=" ++ Text.general length ++ " is shorter than one tick"
  | kicked size gas floored inTurn =>
    "short_range_kick: n=" ++ toString size ++ " fluid=" ++ toString gas ++ " floored="
      ++ toString floored ++ " use_numba=" ++ (if inTurn then "True" else "False")
  | meshKicked start stop factor =>
    "long_range_kick: [" ++ Text.hex start ++ ", " ++ Text.hex stop ++ "] factor="
      ++ Text.general factor
  | glassMade spacing greatest =>
    "Glass-making: dmean= " ++ Text.general spacing ++ "  global disp-maximum= "
      ++ Text.general greatest
  | faultsSpotted count =>
    "bad timestep spotted on " ++ toString count
      ++ " particle(s): terminating and saving snapshot " ++ toString emergencyId
  | snapshotWritten id path => "Wrote snapshot " ++ toString id ++ " to " ++ path
  | stage _ name details =>
    if details.isEmpty then "stage=" ++ name
    else "stage=" ++ name ++ " " ++ Value.listed (.map details)
  | endReached cycles =>
    "Reached the end of the timeline after " ++ toString cycles ++ " cycle(s)"
  | runAborted message => "Run aborted: DegenerateStepError: " ++ message
  | configRead path overrides =>
    "load_config: " ++ path ++ " (" ++ toString overrides ++ " override(s))"

end Event

end BlockStep

import BlockStep.Config
import BlockStep.Config.Lax
import BlockStep.Kind
import BlockStep.Text.Path

namespace BlockStep

namespace Section

/-- A setting that has to be named. -/
def needed {β : Type} (entries : Keyed Value) (name : String) (check : Value → Checked β) :
    Checked β :=
  match Keyed.lookup name entries with
  | some v => (check v).within (.section name)
  | none => (Checked.object .missing).within (.section name)

/-- A setting that has a usual value. -/
def setting {β : Type} (entries : Keyed Value) (name : String) (usual : β)
    (check : Value → Checked β) : Checked β :=
  match Keyed.lookup name entries with
  | some v => (check v).within (.section name)
  | none => .passed usual

/-- The entries of a section. -/
def read {β : Type} (check : Keyed Value → Checked β) : Value → Checked β
  | .map entries => check entries
  | _ => .object .notSection

def demand {β : Type} (b : β) (isMet : Bool) (rule : Rule) : Checked β :=
  if isMet then .passed b else .object (.broken rule)

def realAbove (least : Float) (v : Value) : Checked Float :=
  (Lax.real v).andThen fun x => if least < x then .passed x else .object .notAbove

def realFrom (least : Float) (v : Value) : Checked Float :=
  (Lax.real v).andThen fun x => if least ≤ x then .passed x else .object .below

def wholeAbove (least : Int) (v : Value) : Checked Int :=
  (Lax.whole v).andThen fun i => if least < i then .passed i else .object .notAbove

def wholeBetween (least greatest : Int) (v : Value) : Checked Int :=
  (Lax.whole v).andThen fun i =>
    if greatest < i then .object .above else if i < least then .object .below else .passed i

def realList : Value → Checked (List Float)
  | .list items => Checked.all (fun i v => (Lax.real v).within (.index i)) 0 items
  | _ => .object .notList

/-- A length for each kind. -/
def sixLengths (name : String) (v : Value) : Checked (Vector Float 6) :=
  (realList v).andThen fun xs =>
    if h : xs.length = 6 then
      demand ⟨xs.toArray, h⟩ (xs.all fun x => Scalar.isFinite x && 0.0 ≤ x) (.finiteEntries name)
    else .object (.broken (.sixEntries name))

/-- One of some named values. -/
def named {β : Type} (name : β → String) (values : List β) : Value → Checked β
  | .text s =>
    match values.find? fun b => name b == s with
    | some b => .passed b
    | none => .object .notNamed
  | _ => .object .notNamed

def path : Value → Checked String
  | .text s => .passed (Text.Path.normal s)
  | _ => .object .pathType

end Section

open Section

def TimelineConfig.check : Value → Checked (TimelineConfig Float) :=
  read fun es =>
    (TimelineConfig.mk
      <$> (setting es "timebins" 29 (wholeBetween 4 Fault.mostBins)).map Int.toNat
      <*> needed es "time_begin" (realAbove 0.0)
      <*> setting es "time_max" 1.0 (realAbove 0.0)
      <*> setting es "output_list" [] realList).andThen fun c =>
    demand c (!decide (c.timeMax ≤ c.timeBegin)) (.timeOrder c.timeBegin c.timeMax)

def CosmologyConfig.check : Value → Checked (CosmologyConfig Float) :=
  let usual : CosmologyConfig Float := default
  read fun es =>
    (CosmologyConfig.mk
      <$> setting es "omega0" usual.omega0 (realFrom 0.0)
      <*> setting es "omega_lambda" usual.omegaLambda (realFrom 0.0)
      <*> setting es "omega_baryon" usual.omegaBaryon (realFrom 0.0)
      <*> setting es "hubble" usual.hubble (realAbove 0.0)
      <*> setting es "gravity" usual.gravity (realAbove 0.0)
      <*> setting es "box_size" usual.boxSize (realAbove 0.0)).andThen fun c =>
    demand c (!decide (c.omega0 < c.omegaBaryon)) .baryons

def SofteningConfig.check : Value → Checked (SofteningConfig Float) :=
  let usual : SofteningConfig Float := default
  read fun es =>
    SofteningConfig.mk
      <$> setting es "comoving" usual.comoving (sixLengths "softening.comoving")
      <*> setting es "max_physical" usual.maxPhysical (sixLengths "softening.max_physical")

def StepConfig.check : Value → Checked (StepConfig Float) :=
  let usual : StepConfig Float := default
  read fun es =>
    StepConfig.mk
      <$> setting es "err_tol_int_accuracy" usual.accuracy (realAbove 0.0)
      <*> setting es "courant_fac" usual.courant (realAbove 0.0)
      <*> setting es "min_size_timestep" usual.minSize (realFrom 0.0)
      <*> setting es "max_size_timestep" usual.maxSize (realAbove 0.0)
      <*> setting es "tree_grav_on" usual.treeGravity Lax.truth
      <*> setting es "force_equal_timesteps" usual.equalSteps Lax.truth
      <*> setting es "adaptive_gravsoft_for_gas" usual.adaptiveSoftening Lax.truth

/-- A kind, or none. -/
def MeshConfig.checkFastKind : Value → Checked (Option Int)
  | .null => .passed none
  | v => (Lax.whole v).andThen fun i => demand (some i) (decide (Kind.Exists i)) .fastKind

def MeshConfig.check : Value → Checked (MeshConfig Float) :=
  let usual : MeshConfig Float := default
  read fun es =>
    MeshConfig.mk
      <$> setting es "asmth" usual.asmth (realAbove 0.0)
      <*> setting es "nmesh" usual.cells (wholeAbove 0)
      <*> setting es "max_rms_displacement_fac" usual.displacement (realAbove 0.0)
      <*> setting es "fast_particle_type" usual.fastKind checkFastKind

def GasConfig.check : Value → Checked (GasConfig Float) :=
  let usual : GasConfig Float := default
  read fun es =>
    GasConfig.mk
      <$> setting es "max_gas_vel" usual.maxSpeed (realAbove 0.0)
      <*> setting es "min_egy_spec" usual.minEnergy (realFrom 0.0)

def Features.check : Value → Checked Features :=
  read fun es =>
    Features.mk
      <$> setting es "black_holes" false Lax.truth
      <*> setting es "star_formation" false Lax.truth
      <*> setting es "make_glass_file" false Lax.truth

def DebugConfig.check : Value → Checked DebugConfig :=
  read fun es => DebugConfig.mk <$> setting es "check_kick_times" false Lax.truth

def Transport.check : Value → Checked Transport :=
  read fun es => setting es "transport" .single (named Transport.name [.single, .many])

def OutputConfig.check : Value → Checked OutputConfig :=
  let usual : OutputConfig := default
  read fun es =>
    OutputConfig.mk
      <$> setting es "outdir" usual.directory path
      <*> setting es "snapshot_format" usual.format (named SnapshotFormat.name [.binary, .json])
      <*> setting es "write_history" usual.writesHistory Lax.truth
      <*> setting es "quiet" usual.quiet Lax.truth

namespace Config

def sectionNames : List String :=
  ["timeline", "cosmology", "softening", "timestep", "pm", "gas", "features", "debug",
    "parallel", "io"]

/-- Names that are no sections, in order. -/
def unknownNames (es : Keyed Value) : List String :=
  (Keyed.sorted es).names.filter fun name => !sectionNames.contains name

def checkSections (es : Keyed Value) : Checked (Config Float) :=
  Config.mk
    <$> needed es "timeline" TimelineConfig.check
    <*> setting es "cosmology" default CosmologyConfig.check
    <*> setting es "softening" default SofteningConfig.check
    <*> setting es "timestep" default StepConfig.check
    <*> setting es "pm" default MeshConfig.check
    <*> setting es "gas" default GasConfig.check
    <*> setting es "features" default Features.check
    <*> setting es "debug" default DebugConfig.check
    <*> setting es "parallel" default Transport.check
    <*> setting es "io" default OutputConfig.check

def check : Value → Checked (Config Float) :=
  read fun es =>
    match unknownNames es with
    | [] => checkSections es
    | names => .object (.broken (.unknownSections names))

end Config

end BlockStep

import BlockStep.Config
import BlockStep.Document

namespace BlockStep.Config

/-- A list of numbers. -/
def numbers (xs : List Float) : Value := .list (xs.map .real)

def sections (c : Config Float) : Keyed (Keyed Value) := [
  ("timeline", [
    ("timebins", .whole c.timeline.bins),
    ("time_begin", .real c.timeline.timeBegin),
    ("time_max", .real c.timeline.timeMax),
    ("output_list", numbers c.timeline.outputs)]),
  ("cosmology", [
    ("omega0", .real c.cosmology.omega0),
    ("omega_lambda", .real c.cosmology.omegaLambda),
    ("omega_baryon", .real c.cosmology.omegaBaryon),
    ("hubble", .real c.cosmology.hubble),
    ("gravity", .real c.cosmology.gravity),
    ("box_size", .real c.cosmology.boxSize)]),
  ("softening", [
    ("comoving", numbers c.softening.comoving.toList),
    ("max_physical", numbers c.softening.maxPhysical.toList)]),
  ("timestep", [
    ("err_tol_int_accuracy", .real c.step.accuracy),
    ("courant_fac", .real c.step.courant),
    ("min_size_timestep", .real c.step.minSize),
    ("max_size_timestep", .real c.step.maxSize),
    ("tree_grav_on", .bool c.step.treeGravity),
    ("force_equal_timesteps", .bool c.step.equalSteps),
    ("adaptive_gravsoft_for_gas", .bool c.step.adaptiveSoftening)]),
  ("pm", [
    ("asmth", .real c.mesh.asmth),
    ("nmesh", .whole c.mesh.cells),
    ("max_rms_displacement_fac", .real c.mesh.displacement),
    ("fast_particle_type", (c.mesh.fastKind.map Value.whole).getD .null)]),
  ("gas", [
    ("max_gas_vel", .real c.gas.maxSpeed),
    ("min_egy_spec", .real c.gas.minEnergy)]),
  ("features", [
    ("black_holes", .bool c.features.blackHoles),
    ("star_formation", .bool c.features.starFormation),
    ("make_glass_file", .bool c.features.makeGlass)]),
  ("debug", [("check_kick_times", .bool c.debug.checkKicks)]),
  ("parallel", [("transport", .text c.transport.name)]),
  ("io", [
    ("outdir", .text c.output.directory),
    ("snapshot_format", .text c.output.format.name),
    ("write_history", .bool c.output.writesHistory),
    ("quiet", .bool c.output.quiet)])]

def document (c : Config Float) : Value := .map (c.sections.map fun e => (e.1, .map e.2))

end BlockStep.Config

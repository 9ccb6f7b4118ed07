import BlockStep.Proofs.Rational
import Mathlib.Tactic.Abel

namespace BlockStep

/-- Sums and products are those of a ring. -/
class Scalar.IsRing (α : Type) [Scalar α] : Prop where
  add_comm : ∀ x y : α, x + y = y + x
  add_assoc : ∀ x y z : α, x + y + z = x + (y + z)
  add_zero : ∀ x : α, x + 0.0 = x
  neg_add_cancel : ∀ x : α, -x + x = 0.0
  sub_eq_add_neg : ∀ x y : α, x - y = x + -y
  mul_add : ∀ x y z : α, x * (y + z) = x * y + x * z
  add_mul : ∀ x y z : α, (x + y) * z = x * z + y * z

instance : Scalar.IsRing Rat where
  add_comm := Rat.add_comm
  add_assoc := Rat.add_assoc
  add_zero x := by
    have h : (0.0 : Rat) = 0 := by decide +kernel
    rw [h]
    exact Rat.add_zero x
  neg_add_cancel x := by
    have h : (0.0 : Rat) = 0 := by decide +kernel
    rw [h]
    exact Rat.neg_add_cancel x
  sub_eq_add_neg := Rat.sub_eq_add_neg
  mul_add := Rat.mul_add
  add_mul := Rat.add_mul

variable {α : Type} [Scalar α] {m n : Nat}

namespace Vec3

variable [Scalar.IsRing α]

instance : Zero (Vec3 α) := ⟨zero⟩

omit [Scalar α] [Scalar.IsRing α] in
theorem ext {v w : Vec3 α} (hx : v.x = w.x) (hy : v.y = w.y) (hz : v.z = w.z) : v = w := by
  cases v
  cases w
  cases hx
  cases hy
  cases hz
  rfl

instance : AddCommGroup (Vec3 α) where
  add_assoc u v w := ext (Scalar.IsRing.add_assoc ..) (Scalar.IsRing.add_assoc ..)
    (Scalar.IsRing.add_assoc ..)
  zero_add v := by
    apply ext <;> exact (Scalar.IsRing.add_comm _ _).trans (Scalar.IsRing.add_zero _)
  add_zero v := ext (Scalar.IsRing.add_zero _) (Scalar.IsRing.add_zero _) (Scalar.IsRing.add_zero _)
  add_comm v w := ext (Scalar.IsRing.add_comm ..) (Scalar.IsRing.add_comm ..)
    (Scalar.IsRing.add_comm ..)
  neg_add_cancel v := ext (Scalar.IsRing.neg_add_cancel _) (Scalar.IsRing.neg_add_cancel _)
    (Scalar.IsRing.neg_add_cancel _)
  sub_eq_add_neg v w := ext (Scalar.IsRing.sub_eq_add_neg ..) (Scalar.IsRing.sub_eq_add_neg ..)
    (Scalar.IsRing.sub_eq_add_neg ..)
  nsmul := nsmulRec
  zsmul := zsmulRec

theorem scale_add (v : Vec3 α) (a b : α) : v.scale (a + b) = v.scale a + v.scale b :=
  ext (Scalar.IsRing.mul_add ..) (Scalar.IsRing.mul_add ..) (Scalar.IsRing.mul_add ..)

theorem add_scale (v w : Vec3 α) (a : α) : (v + w).scale a = v.scale a + w.scale a :=
  ext (Scalar.IsRing.add_mul ..) (Scalar.IsRing.add_mul ..) (Scalar.IsRing.add_mul ..)

end Vec3

namespace KickSource

/-- The gravity factors of adjacent stretches add up. -/
def IsAdditive (k : KickSource α) : Prop :=
  ∀ a b c, k.factor a b .gravity + k.factor b c .gravity = k.factor a c .gravity

variable [Scalar.IsRing α] {k : KickSource α}

theorem IsAdditive.scale (h : k.IsAdditive) (v : Vec3 α) (a b c : Int) :
    v.scale (k.factor a b .gravity) + v.scale (k.factor b c .gravity) =
      v.scale (k.factor a c .gravity) := by
  rw [← Vec3.scale_add, h]

theorem IsAdditive.scale_self (h : k.IsAdditive) (v : Vec3 α) (a : Int) :
    v.scale (k.factor a a .gravity) = 0 := by
  have hself := h.scale v a a a
  exact left_eq_add.1 hself.symm

end KickSource

namespace Kicker

omit [Scalar α] in
theorem note_eq (r : Kicker α) (stop : Int) (p : Particle α) :
    r.note stop p = { p with kickTick := if r.isChecked then stop else p.kickTick } := by
  rw [note]
  split <;> rfl

theorem kickOne_of_not_isGas (r : Kicker α) (t : TimeFactors α) (start stop : Int) {p : Particle α}
    (h : p.isGas = false) : r.kickOne t start stop p =
      { p with vel := p.vel + p.gravAccel.scale (r.source.factor start stop .gravity) } := by
  have hgas : ¬ (r.gravityKickOne start stop p).isGas := Bool.eq_false_iff.1 h
  rw [kickOne, if_neg]
  · rfl
  · exact hgas

theorem openOne_of_not_isGas (r : Kicker α) (t : TimeFactors α) {p : Particle α}
    (h : p.isGas = false) : r.openOne t p =
      { p with
        vel := p.vel + p.gravAccel.scale (r.source.factor p.stepStart p.midpoint .gravity)
        kickTick := if r.isChecked then p.midpoint else p.kickTick } := by
  rw [openOne, note_eq]
  exact r.kickOne_of_not_isGas t p.stepStart p.midpoint h

end Kicker

namespace Stepper

variable {k : Kicker α} {t : TimeFactors α} {isDue : Nat → Bool} {want : Particle α → Int}
  {p : Particle α}

theorem turnTo_of_not_isGas (h : p.isGas = false) (toMiddle : Bool) :
    turnTo toMiddle k t n isDue want p =
      let placed := Assign.place n isDue (want p) p.bin
      let stop := if toMiddle then kickPoint p.slot.stop placed.ticks else p.slot.stop
      { p with
        vel := p.vel + p.gravAccel.scale (k.source.factor p.midpoint stop .gravity)
        bin := placed.bin
        stepStart := p.slot.stop
        kickTick := if k.isChecked then stop else p.kickTick } := by
  simp only [turnTo, Kicker.note_eq]
  exact Kicker.kickOne_of_not_isGas k t p.midpoint _ h

theorem turnTo_true_of_not_isGas (h : p.isGas = false) : ∃ kickTick,
    turnTo true k t n isDue want p = { p with
      vel := p.vel + p.gravAccel.scale
        (k.source.factor p.midpoint (turnTo true k t n isDue want p).midpoint .gravity)
      bin := (Assign.place n isDue (want p) p.bin).bin
      stepStart := p.slot.stop
      kickTick := kickTick } := by
  rw [midpoint_turnTo]
  exact ⟨_, turnTo_of_not_isGas h true⟩

end Stepper

structure Particle.Propelled (r : Kicker α) (mesh : MeshStep) (p₀ p : Particle α) : Prop where
  isGas : p.isGas = false
  gravAccel : p.gravAccel = p₀.gravAccel
  meshAccel : p.meshAccel = p₀.meshAccel
  vel : p.vel = p₀.vel + p₀.gravAccel.scale (r.source.factor 0 p.midpoint .gravity) +
    p₀.meshAccel.scale (r.source.factor 0 mesh.kickTick .gravity)

namespace Particle.Propelled

variable [Scalar.IsRing α] {r : Kicker α} {mesh : MeshStep} {p₀ p : Particle α}

theorem of_fresh (h : r.source.IsAdditive) (hfresh : p.slot.Fresh) (hgas : p.isGas = false) :
    Propelled r ⟨0, 0⟩ p p where
  isGas := hgas
  gravAccel := rfl
  meshAccel := rfl
  vel := by
    have hmid : p.midpoint = 0 := by
      have hbin : p.bin = 0 := hfresh.1
      have hstart : p.stepStart = 0 := hfresh.2
      rw [midpoint, hbin, hstart]
      rfl
    have hmesh : MeshStep.kickTick ⟨0, 0⟩ = 0 := rfl
    rw [hmid, hmesh, h.scale_self, h.scale_self, add_zero, add_zero]

theorem turnTo (hp : Propelled r mesh p₀ p) (h : r.source.IsAdditive) (t : TimeFactors α)
    (isDue : Nat → Bool) (want : Particle α → Int) :
    Propelled r mesh p₀ (Stepper.turnTo true r t n isDue want p) := by
  obtain ⟨tick, heq⟩ : ∃ tick, Stepper.turnTo true r t n isDue want p = { p with
      vel := p.vel + p.gravAccel.scale
        (r.source.factor p.midpoint (Stepper.turnTo true r t n isDue want p).midpoint .gravity)
      bin := (Assign.place n isDue (want p) p.bin).bin
      stepStart := p.slot.stop
      kickTick := tick } := Stepper.turnTo_true_of_not_isGas hp.isGas
  have hvel := congrArg Particle.vel heq
  generalize Stepper.turnTo true r t n isDue want p = q at heq hvel ⊢
  have hsum := h.scale p₀.gravAccel 0 p.midpoint q.midpoint
  refine ⟨?_, ?_, ?_, ?_⟩
  · rw [heq]
    exact hp.isGas
  · rw [heq]
    exact hp.gravAccel
  · rw [heq]
    exact hp.meshAccel
  · rw [hvel, hp.vel, hp.gravAccel, ← hsum, add_right_comm, add_assoc p₀.vel]

theorem meshKick (hp : Propelled r mesh p₀ p) (h : r.source.IsAdditive) (ticks : Int) :
    Propelled r ⟨mesh.stop, ticks⟩ p₀ (Stepper.meshKick true r mesh ticks p) where
  isGas := hp.isGas
  gravAccel := hp.gravAccel
  meshAccel := hp.meshAccel
  vel := by
    have hsum := h.scale p₀.meshAccel 0 mesh.kickTick (kickPoint mesh.stop ticks)
    have hmid : (Stepper.meshKick true r mesh ticks p).midpoint = p.midpoint := rfl
    have hmesh : MeshStep.kickTick ⟨mesh.stop, ticks⟩ = kickPoint mesh.stop ticks := rfl
    have hvel : (Stepper.meshKick true r mesh ticks p).vel = p.vel +
        p.meshAccel.scale (r.source.factor mesh.kickTick (kickPoint mesh.stop ticks) .gravity) :=
          rfl
    rw [hmid, hmesh, hvel, hp.vel, hp.meshAccel, ← hsum]
    exact add_assoc _ _ _

theorem after {u : Setup α} {c : Course α} (hp : Propelled u.kicker mesh p₀ p)
    (h : u.kicker.source.IsAdditive) :
    Propelled u.kicker (c.meshAfter u mesh) p₀ (c.after u n mesh p) := by
  have hturned : Propelled u.kicker mesh p₀ (c.turned u n p) := by
    rw [Course.turned]
    split
    · exact hp.turnTo h _ _ _
    · exact hp
  rw [Course.after, Course.meshAfter]
  split
  · exact hturned.meshKick h c.most
  · exact hturned

theorem velocityAt_eq (hp : Propelled r mesh p₀ p) (h : r.source.IsAdditive) (t : Int) :
    r.velocityAt p t mesh =
      p₀.vel + (p₀.gravAccel + p₀.meshAccel).scale (r.source.factor 0 t .gravity) := by
  have hgrav := h.scale p₀.gravAccel 0 t p.midpoint
  have hmesh := h.scale p₀.meshAccel 0 t mesh.kickTick
  have hgas : ¬ p.isGas := Bool.eq_false_iff.1 hp.isGas
  rw [Kicker.velocityAt, if_neg hgas, hp.vel, hp.gravAccel, hp.meshAccel, ← hgrav, ← hmesh,
    Vec3.add_scale]
  abel

end Particle.Propelled

namespace InStep

variable {f : Fleet α m} {now : Tick} {mesh : MeshStep} {s : Ranks m (Stepper α f.setup.bins)}

theorem joint_cycle_frozen (h : InStep f.setup now mesh s) (hu : f.setup.IsMade)
    (hglass : f.setup.config.features.makeGlass = false)
    (hf : ∀ k i, Forces.Frozen (f.forces k i)) (k : Nat) :
    Joint (fun _ => True) (fun _ => True) (f.cycle k) s fun _ s' =>
      ∃ c : Course α, c.Leads f.setup now mesh s (fun i => (s i).store) s' := by
  by_cases hend : now.toAbsolute f.setup.timebase < f.setup.timeline.endTick
  · refine (Stepper.joint_runCycle (K := fun st st' => st' = st) hu.two_le
      (Int.ne_of_gt hu.timebase_pos) h.current h.mesh (fun _ => rfl) (fun next t ht => ?_)
      (fun _ _ _ _ _ _ => trivial) (fun _ _ _ _ _ => trivial) h.phase hend).mono ?_
    · exact Stepper.joint_prepare_frozen (hf k) hglass ht
    · rintro _ s' ⟨c, st, hst, hc⟩
      obtain rfl : st = fun i => (s i).store := funext hst
      exact ⟨c, hc⟩
  · exact h.joint_finished (Int.not_lt.1 hend) trivial

end InStep

namespace Fleet

variable [Scalar.IsRing α] {f : Fleet α m} {store : Ranks m (Store α)} {k : Nat}
  {s : Ranks m (Stepper α f.setup.bins)}

theorem exists_propelled (hu : f.setup.IsMade) (hglass : f.setup.config.features.makeGlass = false)
    (hf : ∀ k i, Forces.Frozen (f.forces k i)) (hadd : f.setup.kicker.source.IsAdditive)
    (hfresh : ∀ i, ∀ p ∈ store i, p.slot.Fresh) (h : f.after? store k = some s) :
    ∃ now mesh, InStep f.setup now mesh s ∧
      ∀ (i : Fin (m + 1)) (l : Nat) (p₀ : Particle α), (store i)[l]? = some p₀ → p₀.isGas = false →
        ∃ p : Particle α, (s i).store[l]? = some p ∧
          Particle.Propelled f.setup.kicker mesh p₀ p := by
  induction k generalizing s with
  | zero =>
    have hfirst := isFirst_of_after? h
    refine ⟨_, _, InStep.of_first hfirst, ?_⟩
    intro i l p₀ hl hgas
    rw [(hfirst i).store]
    exact ⟨p₀, hl, .of_fresh hadd (hfresh i p₀ (Array.mem_of_getElem? hl)) hgas⟩
  | succ k ih =>
    obtain ⟨t, ht, hs⟩ := after?_succ.1 h
    obtain ⟨now, mesh, hin, hall⟩ := ih ht
    obtain ⟨_, c, hc⟩ := (hin.joint_cycle_frozen hu hglass hf k).of_states? hs
    refine ⟨_, _, InStep.of_leads hc, ?_⟩
    intro i l p₀ hl hgas
    obtain ⟨p, hp, hpropelled⟩ := hall i l p₀ hl hgas
    exact ⟨_, (hc.ran i).getElem?_store hp, hpropelled.after hadd⟩

/-- Whatever steps a particle and the mesh have taken, its velocity is the one of its outset and the
kicks from the first tick up to the middles of the current steps; the prediction at any tick is the
velocity with the kicks from the first tick up to that tick. -/
theorem velocity_of_outset (hu : f.setup.IsMade)
    (hglass : f.setup.config.features.makeGlass = false)
    (hf : ∀ k i, Forces.Frozen (f.forces k i)) (hadd : f.setup.kicker.source.IsAdditive)
    (hfresh : ∀ i, ∀ p ∈ store i, p.bin = 0 ∧ p.stepStart = 0) (h : f.after? store k = some s)
    {i : Fin (m + 1)} {l : Nat} {p₀ : Particle α} (hl : (store i)[l]? = some p₀)
    (hgas : p₀.isGas = false) :
    ∃ p, (s i).store[l]? = some p ∧ p.gravAccel = p₀.gravAccel ∧ p.meshAccel = p₀.meshAccel ∧
      p.vel = p₀.vel + p.gravAccel.scale (f.setup.kicker.source.factor 0 p.midpoint .gravity) +
        p.meshAccel.scale (f.setup.kicker.source.factor 0 (s i).mesh.kickTick .gravity) ∧
      ∀ t, f.setup.kicker.velocityAt p t (s i).mesh = p₀.vel +
        (p.gravAccel + p.meshAccel).scale (f.setup.kicker.source.factor 0 t .gravity) := by
  obtain ⟨now, mesh, hin, hall⟩ := exists_propelled hu hglass hf hadd hfresh h
  obtain ⟨p, hp, hpropelled⟩ := hall i l p₀ hl hgas
  refine ⟨p, hp, hpropelled.gravAccel, hpropelled.meshAccel, ?_, ?_⟩
  · rw [hin.mesh i, hpropelled.gravAccel, hpropelled.meshAccel]
    exact hpropelled.vel
  · intro t
    rw [hin.mesh i, hpropelled.gravAccel, hpropelled.meshAccel]
    exact hpropelled.velocityAt_eq hadd t

end Fleet

namespace Sample

def pulled : Particle Rat :=
  { particle 0 with gravAccel := ⟨2, 0, 0⟩, meshAccel := ⟨0, 3, 0⟩ }

def pulledStore : Ranks 1 (Store Rat)
  | 0 => #[particle 1, pulled]
  | 1 => #[particle 2]

theorem isAdditive : setup.kicker.source.IsAdditive := by
  intro a b c
  have hfactor (i j : Int) : setup.kicker.source.factor i j .gravity =
      ((j - i : Int) : Rat) * 0.01 := rfl
  rw [hfactor, hfactor, hfactor, ← Rat.add_mul]
  congr 1
  push_cast
  grind

end Sample

theorem Fleet.velocity_of_outset_sample : ∃ s, Sample.fleet.after? Sample.pulledStore 3 = some s ∧
    ∃ p, (s 0).store[1]? = some p ∧ p.vel = Sample.pulled.vel +
      p.gravAccel.scale (Sample.setup.kicker.source.factor 0 p.midpoint .gravity) +
        p.meshAccel.scale (Sample.setup.kicker.source.factor 0 (s 0).mesh.kickTick .gravity) := by
  have hsome : (Sample.fleet.after? Sample.pulledStore 3).isSome := by decide +kernel
  obtain ⟨s, h⟩ := Option.isSome_iff_exists.1 hsome
  have hfresh : ∀ i, ∀ p ∈ Sample.pulledStore i, p.bin = 0 ∧ p.stepStart = 0 := by
    intro i
    match i with
    | 0 => simp [Sample.pulledStore, Sample.pulled, Sample.particle, default, Particle.zero]
    | 1 => simp [Sample.pulledStore, Sample.particle, default, Particle.zero]
  have hstart : (Sample.pulledStore 0)[1]? = some Sample.pulled := rfl
  obtain ⟨p, hp, -, -, hvel, -⟩ := velocity_of_outset Sample.isMade rfl
    (fun _ _ => Forces.frozen_none) Sample.isAdditive hfresh h hstart rfl
  exact ⟨s, h, p, hp, hvel⟩

end BlockStep

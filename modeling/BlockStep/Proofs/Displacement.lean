import BlockStep.Proofs.GasBounds
import BlockStep.Proofs.Agreement
import BlockStep.Proofs.Always

namespace BlockStep

variable {α : Type} [ExactScalar α]

theorem Vec3.scale_comm (v : Vec3 α) (a b : α) : (v.scale a).scale b = (v.scale b).scale a :=
  ext (mul_right_comm ..) (mul_right_comm ..) (mul_right_comm ..)

theorem Scalar.le_foldl_upper {x y : α} {ys : List α} (h : x = y ∨ x ∈ ys) :
    x ≤ ys.foldl upper y := by
  induction ys generalizing x y with
  | nil => exact (h.resolve_right List.not_mem_nil).le
  | cons z zs ih =>
    rw [List.foldl_cons, upper_exact]
    have hfirst : max y z ≤ zs.foldl upper (max y z) := ih (.inl rfl)
    rcases h with rfl | h
    · exact (le_max_left x z).trans hfirst
    · rcases List.mem_cons.1 h with rfl | h
      · exact (le_max_right y x).trans hfirst
      · exact ih (.inr h)

theorem Reduction.ge_of_answers {v w : α} (h : Reduction.greatestLength.Answers (α := α) v w) :
    v ≤ w := by
  obtain ⟨m, vs, i, rfl, rfl⟩ := h
  exact Scalar.le_foldl_upper (Ranks.mem_first_or_others.2 ⟨i, rfl⟩)

namespace Glass

/-- What makes a displacement of a force. -/
def toLength (c : CosmologyConfig α) : α := 2.0 / (3.0 * c.hubble * c.hubble)

/-- The whole displacement of a particle, along its reversed force. -/
def displacement (c : CosmologyConfig α) (p : Particle α) : Vec3 α :=
  (-(p.gravAccel + p.meshAccel)).scale (toLength c)

def settled (c : CosmologyConfig α) (factor : α) (p : Particle α) : Particle α :=
  { p with
    vel := .zero
    pos := p.pos + (displacement c p).scale factor
    gravAccel := .zero
    meshAccel := .zero }

def firstMass (s : Store α) : α := (s[0]?.map (·.mass)).getD 0.0

def IsSpacing (c : CosmologyConfig α) (mass side : α) : Prop :=
  0 ≤ side ∧ ∃ critical, c.criticalDensity = .ok critical ∧ side ^ 3 * (c.omega0 * critical) = mass

def greatestOf (c : CosmologyConfig α) (s : Store α) : α := greatest (toLength c) (s.map reversed)

/-- All particles go the same part of their displacements, so that the greatest one of all ranks is
cut to the mean spacing if it is longer. -/
structure Settles (c : CosmologyConfig α) (s : Store α) (factor : α) (s' : Store α) : Prop where
  factor_nonneg : 0 ≤ factor
  factor_le_one : factor ≤ 1
  store : s' = s.map (settled c factor)
  within_whole : ∀ p ∈ s, ((displacement c p).scale factor).norm ≤ (displacement c p).norm
  within_spacing : ∃ side, IsSpacing c (firstMass s) side ∧
    (∀ p ∈ s, ((displacement c p).scale factor).norm ≤ side) ∧
      ∃ all : α, Reduction.greatestLength.Answers (α := α) (greatestOf c s : α) all ∧
        factor = if side < all then side / all else 1

variable {c : CosmologyConfig α} {p : Particle α} {s : Store α} {factor side all : α}

theorem moved_reversed (c : CosmologyConfig α) (factor : α) (p : Particle α) :
    (moved factor (toLength c) ∘ reversed) p = settled c factor p := by
  simp only [Function.comp_apply, moved, reversed, settled, displacement, neg_add',
    Vec3.scale_comm _ factor]

theorem toLength_pos (h : 0 < c.hubble) : 0 < toLength c := by
  have htwo : (0 : α) < 2.0 := ExactScalar.ofScientific_pos (by norm_num)
  have hthree : (0 : α) < 3.0 := ExactScalar.ofScientific_pos (by norm_num)
  exact div_pos htwo (mul_pos (mul_pos hthree h) h)

theorem factorFor_eq (hside : 0 ≤ side) :
    factorFor side all = if side < all then side / all else 1 := by
  rw [factorFor, Scalar.lesser_exact, ExactScalar.zero_eq, ExactScalar.one_eq]
  split
  next hpos =>
    split
    next hlt => exact min_eq_right ((div_le_one hpos).2 hlt.le)
    next hge => exact min_eq_left ((one_le_div hpos).2 (not_lt.1 hge))
  next hneg => rw [if_neg fun hlt => hneg (hside.trans_lt hlt)]

theorem factorFor_bounds (hside : 0 ≤ side) (all : α) :
    0 ≤ factorFor side all ∧ factorFor side all ≤ 1 ∧
      ∀ length, 0 ≤ length → length ≤ all → factorFor side all * length ≤ side := by
  rw [factorFor_eq hside]
  split
  next hlt =>
    have hpos : 0 < all := hside.trans_lt hlt
    have hpart : 0 ≤ side / all := div_nonneg hside hpos.le
    refine ⟨hpart, (div_le_one hpos).2 hlt.le, ?_⟩
    intro length _ hle
    calc
      side / all * length ≤ side / all * all := mul_le_mul_of_nonneg_left hle hpart
      _ = side := div_mul_cancel₀ side hpos.ne'
  next hge =>
    refine ⟨zero_le_one, le_rfl, ?_⟩
    intro length _ hle
    rw [one_mul]
    exact hle.trans (not_lt.1 hge)

section Roots

variable [Scalar.HasRoots α]

theorem norm_displacement_le (h : 0 < c.hubble) (hp : p ∈ s) :
    (displacement c p).norm ≤ greatestOf c s := by
  have hmem : (displacement c p).norm ∈
      (s.map reversed).toList.map fun q => q.gravAccel.norm * toLength c := by
    apply List.mem_map.2
    refine ⟨reversed p, by simpa using ⟨p, hp, rfl⟩, ?_⟩
    rw [displacement, Vec3.norm_scale _ (toLength_pos h).le, mul_comm, reversed, neg_add']
  rw [greatestOf, greatest]
  split
  next hnil =>
    rw [hnil] at hmem
    cases hmem
  next d ds hcons =>
    rw [hcons] at hmem
    exact Scalar.le_foldl_upper (List.mem_cons.1 hmem)

theorem settles (hh : 0 < c.hubble) (hside : IsSpacing c (firstMass s) side)
    (hall : Reduction.greatestLength.Answers (α := α) (greatestOf c s : α) all) :
    Settles c s (factorFor side all) (s.map (settled c (factorFor side all))) := by
  obtain ⟨hnonneg, hone, hcut⟩ := factorFor_bounds hside.1 all
  have hnorm (p : Particle α) := Vec3.norm_scale (displacement c p) hnonneg
  constructor
  case factor_nonneg => exact hnonneg
  case factor_le_one => exact hone
  case store => rfl
  case within_whole =>
    intro p _
    rw [hnorm]
    exact mul_le_of_le_one_left (Vec3.norm_nonneg _) hone
  case within_spacing =>
    refine ⟨side, hside, ?_, all, hall, factorFor_eq hside.1⟩
    intro p hp
    rw [hnorm]
    have hle := (norm_displacement_le hh hp).trans (Reduction.ge_of_answers hall)
    exact hcut _ (Vec3.norm_nonneg _) hle

end Roots

theorem isSpacing_root [Scalar.HasCubeRoots α] {mass critical : α} (hmass : 0 ≤ mass)
    (hcritical : c.criticalDensity = .ok critical) (hdensity : 0 < c.omega0 * critical) :
    IsSpacing c mass (Scalar.pow (mass / (c.omega0 * critical)) (1.0 / 3.0)) := by
  have hratio : 0 ≤ mass / (c.omega0 * critical) := div_nonneg hmass hdensity.le
  constructor
  · exact Scalar.HasCubeRoots.cubeRoot_nonneg _ hratio
  · refine ⟨critical, hcritical, ?_⟩
    rw [Scalar.HasCubeRoots.cubeRoot_pow _ hratio, div_mul_cancel₀ mass hdensity.ne']

theorem firstMass_reversed (s : Store α) :
    ((s.map reversed)[0]?.map (·.mass)).getD 0.0 = firstMass s := by
  rw [Array.getElem?_map, Option.map_map]
  rfl

/-- A glass is made on a rank whatever the other ranks hand in. -/
theorem make_settles [Scalar.HasRoots α] [Scalar.HasCubeRoots α] [Scalar.HasPi α]
    (homega : 0 < c.omega0) (hhubble : 0 < c.hubble) (hgravity : 0 < c.gravity)
    (hmass : 0 ≤ firstMass s) :
    (make c).Always (fun _ _ => False) s fun factor s' => Settles c s factor s' := by
  obtain ⟨critical, hcritical, hpos⟩ :
      ∃ critical, c.criticalDensity = .ok critical ∧ 0 < critical :=
    ⟨_, CosmologyConfig.criticalDensity_exact hhubble hgravity⟩
  have hdensity : 0 < c.omega0 * critical := mul_pos homega hpos
  have hthree : (0 : α) < 3.0 := ExactScalar.ofScientific_pos (by norm_num)
  have hthird : (0 : α) < 1.0 / 3.0 := div_pos (ExactScalar.ofScientific_pos (by norm_num)) hthree
  have hlength : Scalar.quotient 2.0 (3.0 * c.hubble * c.hubble) = .ok (toLength c) :=
    Scalar.quotient_exact (mul_pos (mul_pos hthree hhubble) hhubble).ne'
  have hratio := Scalar.quotient_exact (x := firstMass s) hdensity.ne'
  have hroot := Scalar.power_of_nonneg (div_nonneg hmass hdensity.le) hthird
  have hside := isSpacing_root hmass hcritical hdensity
  rw [make, hlength]
  simp only [Act.always_bind, Act.always_modify, Act.always_lift_ok, Act.always_get]
  apply Act.always_bind.2
  apply Act.always_reduce.2
  intro all hall
  rw [hcritical]
  simp only [Act.always_bind, Act.always_lift_ok, Act.always_get]
  rw [firstMass_reversed, hratio]
  simp only [Act.always_lift_ok, hroot, Act.always_bind, Act.always_tell, Act.always_modify,
    Act.always_pure]
  rw [Array.map_map, funext (moved_reversed c _)]
  exact settles hhubble hside hall

section Sample

def matterBackground (gravity : ℝ) : CosmologyConfig ℝ := ⟨1, 0, 0, 1, gravity, 1⟩

noncomputable def glassStore : Store ℝ :=
  #[
    { (default : Particle ℝ) with
      mass := 1, vel := ⟨1, 0, 1⟩, gravAccel := ⟨0, 1, 0⟩, meshAccel := ⟨0, 1, 0⟩ },
    { (default : Particle ℝ) with mass := 1, vel := ⟨0, 1, 0⟩, gravAccel := ⟨1, 0, 0⟩ }]

theorem gravity_pos : (0 : ℝ) < 3 / (8 * Real.pi) := by
  have hpi := Real.pi_pos
  positivity

theorem criticalDensity_matter :
    (matterBackground (3 / (8 * Real.pi))).criticalDensity = .ok 1 := by
  have hpi := Real.pi_pos
  have hthree : (3.0 : ℝ) = 3 := by
    rw [ExactScalar.ofScientific_eq]
    norm_num
  have height : (8.0 : ℝ) = 8 := by
    rw [ExactScalar.ofScientific_eq]
    norm_num
  rw [(CosmologyConfig.criticalDensity_exact (c := matterBackground _) one_pos gravity_pos).1]
  change Except.ok (3.0 * (1 : ℝ) ^ (2.0 : ℝ) / (8.0 * Real.pi * (3 / (8 * Real.pi)))) = _
  rw [hthree, height, Real.one_rpow, mul_div_cancel₀ 3 (by positivity), mul_one,
    div_self three_ne_zero]

theorem make_settles_sample :
    (make (matterBackground (3 / (8 * Real.pi)))).Always (fun _ _ => False) glassStore
      fun factor s' => 0 ≤ factor ∧ factor ≤ 1 ∧
        s' = glassStore.map (settled (matterBackground (3 / (8 * Real.pi))) factor) ∧
        ∀ p ∈ glassStore,
          ((displacement (matterBackground (3 / (8 * Real.pi))) p).scale factor).norm ≤ 1 := by
  have hmass : (0 : ℝ) ≤ firstMass glassStore := zero_le_one
  apply (make_settles (c := matterBackground _) one_pos one_pos gravity_pos hmass).mono
  · intro factor s' h
    obtain ⟨side, hside, hwithin, -⟩ := h.within_spacing
    obtain ⟨hnonneg, critical, hcritical, hcube⟩ := hside
    have hone : critical = 1 := Except.ok.inj (hcritical.symm.trans criticalDensity_matter)
    have hunit : side = 1 := by
      change side ^ 3 * (1 * critical) = 1 at hcube
      rw [hone, mul_one, mul_one] at hcube
      exact (pow_eq_one_iff_of_nonneg hnonneg three_ne_zero).1 hcube
    rw [hunit] at hwithin
    exact ⟨h.factor_nonneg, h.factor_le_one, h.store, hwithin⟩
  · exact fun _ _ h => h

end Sample

end Glass

end BlockStep

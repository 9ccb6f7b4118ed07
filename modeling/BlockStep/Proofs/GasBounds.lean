import BlockStep.Proofs.Exact
import BlockStep.Proofs.Listed

namespace BlockStep

namespace Vec3

variable {α : Type} [ExactScalar α]

theorem normSq_nonneg (v : Vec3 α) : 0 ≤ v.normSq := by
  have hx := mul_self_nonneg v.x
  have hy := mul_self_nonneg v.y
  have hz := mul_self_nonneg v.z
  exact add_nonneg (add_nonneg hx hy) hz

theorem normSq_scale (v : Vec3 α) (c : α) : (v.scale c).normSq = c * c * v.normSq := by
  simp only [normSq, scale, map]
  ring

theorem scale_one (v : Vec3 α) : v.scale 1 = v := by
  simp only [scale, map, mul_one]

section Norm

variable [Scalar.HasRoots α]

theorem norm_nonneg (v : Vec3 α) : 0 ≤ v.norm := Scalar.HasRoots.sqrt_nonneg _

theorem norm_mul_self (v : Vec3 α) : v.norm * v.norm = v.normSq :=
  Scalar.HasRoots.sqrt_mul_self _ v.normSq_nonneg

theorem norm_scale (v : Vec3 α) {c : α} (hc : 0 ≤ c) : (v.scale c).norm = c * v.norm := by
  have hsq : (v.scale c).norm * (v.scale c).norm = c * v.norm * (c * v.norm) := by
    rw [norm_mul_self, normSq_scale, ← norm_mul_self]
    ring
  exact (mul_self_inj (norm_nonneg _) (mul_nonneg hc v.norm_nonneg)).1 hsq

end Norm

end Vec3

namespace Kick

section Parts

variable {α : Type} [Scalar α] {l : GasLimits α} {k : GasKick α} {p : Particle α}

def pushed (k : GasKick α) (p : Particle α) : Vec3 α := p.vel + p.hydroAccel.scale k.factor

def heated (k : GasKick α) (p : Particle α) : α :=
  if p.energyRate * k.length < -0.5 * p.energy then 0.5 * p.energy
  else p.energy + p.energyRate * k.length

/-- The energy is held at the least one. -/
def IsHeld (l : GasLimits α) (k : GasKick α) (p : Particle α) : Prop :=
  (0.0 : α) < l.energy ∧ heated k p < leastEnergy l p.eomDensity

instance : Decidable (IsHeld l k p) := inferInstanceAs (Decidable (_ ∧ _))

theorem gasState_vel (l : GasLimits α) (k : GasKick α) (p : Particle α) :
    (gasState l k p).vel =
      if l.speed < (pushed k p).norm then (pushed k p).scale (l.speed / (pushed k p).norm)
      else pushed k p := rfl

theorem gasState_of_held (h : IsHeld l k p) : (gasState l k p).energy = leastEnergy l p.eomDensity ∧
    (gasState l k p).rate = rateLimited k.next (leastEnergy l p.eomDensity) 0.0 := by
  have hheld := decide_eq_true h
  exact ⟨if_pos hheld, congrArg₂ (rateLimited k.next) (if_pos hheld) (if_pos hheld)⟩

theorem gasState_of_not_held (h : ¬ IsHeld l k p) : (gasState l k p).energy = heated k p ∧
    (gasState l k p).rate = rateLimited k.next (heated k p) p.energyRate := by
  have hnot : ¬ decide (IsHeld l k p) = true := by simpa using h
  exact ⟨if_neg hnot, congrArg₂ (rateLimited k.next) (if_neg hnot) (if_neg hnot)⟩

theorem gasOne_eq [Scalar.IsCommutative α] (l : GasLimits α) (k : GasKick α) (p : Particle α) :
    gasOne l k p = (withGas (gasState l k p) p, decide (IsHeld l k p)) := by
  simp only [gasOne, gasState, rateLimited, withGas, IsHeld, heated]
  split <;> split <;> simp only [Scalar.IsCommutative.mul_comm p.energy] <;> split <;> split <;> rfl

end Parts

variable {α : Type} [ExactScalar α] {l : GasLimits α} {k : GasKick α} {p : Particle α}

theorem half_le_heated (k : GasKick α) (p : Particle α) : p.energy / 2 ≤ heated k p := by
  rw [heated, ExactScalar.half_eq]
  split <;> linarith

theorem rateLimited_mul (u rate : α) {next : α} (h : 0 < next) :
    -(u / 2) ≤ rateLimited next u rate * next := by
  rw [rateLimited, ExactScalar.zero_eq, ExactScalar.half_eq]
  split
  · rw [div_mul_cancel₀ _ (ne_of_gt h)]
    linarith
  next hnot =>
    have hge := not_lt.1 fun hlt => hnot ⟨h, hlt⟩
    linarith

theorem rateLimited_zero (next : α) {u : α} (h : 0 ≤ u) : rateLimited next u 0 = 0 := by
  rw [rateLimited, ExactScalar.zero_eq, ExactScalar.half_eq, if_neg]
  rintro ⟨-, hlt⟩
  linarith

theorem gamma_eq : (gamma : α) = 5 / 3 := by
  have hliteral (m : Nat) (s : Bool) (e : Nat) := ExactScalar.ofScientific_eq (α := α) m s e
  simp only [gamma, hliteral]
  norm_num

theorem limits_energy_pos {g : GasConfig α} {t : TimeFactors α} :
    0 < (limits g t).energy ↔ 0 < g.minEnergy := by
  rw [limits, gamma_eq, ExactScalar.one_eq]
  constructor
  · intro h
    linarith
  · intro h
    linarith

theorem leastEnergy_pos (hl : 0 < l.energy) (ha : 0 < l.a3inv) {density : α} (hd : 0 < density) :
    0 < leastEnergy l density :=
  div_pos hl (ExactScalar.pow_pos _ _ (mul_pos hd ha))

theorem exists_gasState_vel_eq [Scalar.HasRoots α] (hl : 0 ≤ l.speed) :
    ∃ c, 0 ≤ c ∧ (gasState l k p).vel = (pushed k p).scale c := by
  rw [gasState_vel]
  split
  · exact ⟨_, div_nonneg hl (Vec3.norm_nonneg _), rfl⟩
  · exact ⟨1, zero_le_one, (Vec3.scale_one _).symm⟩

theorem norm_gasState_vel_le [Scalar.HasRoots α] (hl : 0 ≤ l.speed) :
    (gasState l k p).vel.norm ≤ l.speed := by
  rw [gasState_vel]
  split
  next hlt =>
    have hpos := hl.trans_lt hlt
    rw [Vec3.norm_scale _ (div_nonneg hl hpos.le), div_mul_cancel₀ _ hpos.ne']
  next hle => exact not_lt.1 hle

theorem leastEnergy_le_energy (k : GasKick α) (p : Particle α) (hl : 0 < l.energy) :
    leastEnergy l p.eomDensity ≤ (gasState l k p).energy := by
  by_cases hheld : IsHeld l k p
  · rw [(gasState_of_held hheld).1]
  · rw [(gasState_of_not_held hheld).1]
    rw [IsHeld, ExactScalar.zero_eq] at hheld
    exact not_lt.1 fun hlt => hheld ⟨hl, hlt⟩

theorem energy_of_held (h : IsHeld l k p) (hleast : 0 < leastEnergy l p.eomDensity) :
    (gasState l k p).energy = leastEnergy l p.eomDensity ∧ (gasState l k p).rate = 0 := by
  obtain ⟨henergy, hrate⟩ := gasState_of_held h
  rw [ExactScalar.zero_eq, rateLimited_zero _ hleast.le] at hrate
  exact ⟨henergy, hrate⟩

theorem half_le_energy (l : GasLimits α) (k : GasKick α) (p : Particle α) :
    p.energy / 2 ≤ (gasState l k p).energy := by
  have hhalf := half_le_heated k p
  by_cases hheld : IsHeld l k p
  · rw [(gasState_of_held hheld).1]
    exact hhalf.trans hheld.2.le
  · rw [(gasState_of_not_held hheld).1]
    exact hhalf

theorem rate_mul_next (l : GasLimits α) (p : Particle α) (h : 0 < k.next) :
    -((gasState l k p).energy / 2) ≤ (gasState l k p).rate * k.next :=
  rateLimited_mul _ _ h

end Kick

namespace Kicker

section Parts

variable {α : Type} [Scalar α]

def gasOf (r : Kicker α) (t : TimeFactors α) (k : Stretch) (p : Particle α) : Kick.GasState α :=
  Kick.gasState (Kick.limits r.gas t) (r.gasWeight k.start k.stop p)
    (r.gravityKickOne k.start k.stop p)

def pushedOne (r : Kicker α) (k : Stretch) (p : Particle α) : Vec3 α :=
  Kick.pushed (r.gasWeight k.start k.stop p) (r.gravityKickOne k.start k.stop p)

theorem pushedOne_eq (r : Kicker α) (k : Stretch) (p : Particle α) :
    r.pushedOne k p = p.vel + p.gravAccel.scale (r.source.factor k.start k.stop .gravity) +
      p.hydroAccel.scale (r.source.factor k.start k.stop .hydro) := rfl

end Parts

variable {α : Type} [ExactScalar α] {r : Kicker α} {t : TimeFactors α} {k : Stretch}
  {p : Particle α}

theorem gasKickOne_eq (r : Kicker α) (t : TimeFactors α) (start stop : Int) (p : Particle α) :
    r.gasKickOne t start stop p =
      Kick.withGas (Kick.gasState (Kick.limits r.gas t) (r.gasWeight start stop p) p) p := by
  rw [gasKickOne]
  split
  · rw [Kick.gasOne_eq]
  · rfl

theorem listedOne_of_isGas (r : Kicker α) (t : TimeFactors α) (k : Stretch) (h : p.isGas) :
    r.listedOne t k p = Kick.withGas (r.gasOf t k p) (r.note k.stop p) := by
  have hgas : (r.note k.stop p).isGas := by
    rw [note_eq]
    exact h
  rw [listedOne, kickOne, if_pos hgas, gasKickOne_eq, gasOf, note_eq]
  rfl

/-- A gas particle `p` has become `q` within the limits of a kick. -/
structure Limited (r : Kicker α) (t : TimeFactors α) (k : Stretch) (p q : Particle α) : Prop where
  speed_le : q.vel.norm ≤ r.gas.maxSpeed * Scalar.sqrt t.a3inv
  unclamped : (r.pushedOne k p).norm ≤ r.gas.maxSpeed * Scalar.sqrt t.a3inv →
    q.vel = r.pushedOne k p
  clamped : ∃ c, 0 ≤ c ∧ q.vel = (r.pushedOne k p).scale c
  half_le : 0 ≤ p.energy → p.energy / 2 ≤ q.energy
  least_le : 0 < r.gas.minEnergy → Kick.leastEnergy (Kick.limits r.gas t) p.eomDensity ≤ q.energy
  held : 0 < r.gas.minEnergy →
    Kick.heated (r.gasWeight k.start k.stop p) p <
        Kick.leastEnergy (Kick.limits r.gas t) p.eomDensity →
      q.energy = Kick.leastEnergy (Kick.limits r.gas t) p.eomDensity ∧ q.energyRate = 0
  rate : 0 < (r.gasWeight k.start k.stop p).next →
    -(q.energy / 2) ≤ q.energyRate * (r.gasWeight k.start k.stop p).next

theorem limited_listedOne [Scalar.HasRoots α] (hv : 0 ≤ r.gas.maxSpeed) (hp : p.isGas)
    (ha : 0 < t.a3inv) (hd : 0 < p.eomDensity) : r.Limited t k p (r.listedOne t k p) := by
  have hlimit : 0 ≤ r.gas.maxSpeed * Scalar.sqrt t.a3inv :=
    mul_nonneg hv (Scalar.HasRoots.sqrt_nonneg _)
  rw [listedOne_of_isGas r t k hp]
  constructor
  case speed_le => exact Kick.norm_gasState_vel_le hlimit
  case unclamped => exact fun hle => if_neg (not_lt.2 hle)
  case clamped => exact Kick.exists_gasState_vel_eq hlimit
  case half_le => exact fun _ => Kick.half_le_energy _ _ _
  case least_le => exact fun h => Kick.leastEnergy_le_energy _ _ (Kick.limits_energy_pos.2 h)
  case held =>
    intro h hlt
    have hpos := Kick.limits_energy_pos (t := t).2 h
    have hheld : Kick.IsHeld (Kick.limits r.gas t) (r.gasWeight k.start k.stop p)
        (r.gravityKickOne k.start k.stop p) := by
      rw [Kick.IsHeld, ExactScalar.zero_eq]
      exact ⟨hpos, hlt⟩
    exact Kick.energy_of_held hheld (Kick.leastEnergy_pos hpos ha hd)
  case rate => exact fun h => Kick.rate_mul_next _ _ h

/-- The place of a gas particle whose energy is not negative. -/
def IsWarm (s : Store α) (i : Nat) : Prop := ∃ p, s[i]? = some p ∧ p.isGas ∧ 0 ≤ p.energy

def kickEach (r : Kicker α) (kicks : List (TimeFactors α × List Stretch)) : Act α (Store α) Unit :=
  kicks.forM fun e => r.shortRange e.1 e.2

theorem Kicks.isWarm {s s' : Store α} {ks : List Stretch} (h : r.Kicks t ks s s') {i : Nat}
    (hi : IsWarm s i) : IsWarm s' i := by
  obtain ⟨p, hp, hgas, henergy⟩ := hi
  by_cases hlisted : i ∈ ks.map (·.place)
  · obtain ⟨k, hk, rfl⟩ := List.mem_map.1 hlisted
    have hq := h.listed k hk
    rw [particle_eq hp, listedOne_of_isGas r t k hgas] at hq
    refine ⟨_, hq, ?_, ?_⟩
    · rw [note_eq]
      exact hgas
    · have hhalf : p.energy / 2 ≤ (r.gasOf t k p).energy := Kick.half_le_energy _ _ _
      exact (by linarith : 0 ≤ p.energy / 2).trans hhalf
  · rw [← h.unlisted i hlisted] at hp
    exact ⟨p, hp, hgas, henergy⟩

theorem ends_kickEach (kicks : List (TimeFactors α × List Stretch)) {s : Store α}
    (hl : ∀ e ∈ kicks, Lists s e.2) {i : Nat} (hi : IsWarm s i) :
    (r.kickEach kicks).Ends (fun e => e.isGap) s fun _ s' => IsWarm s' i := by
  induction kicks generalizing s with
  | nil => exact Act.ends_pure.2 hi
  | cons e kicks ih =>
    have hfirst := hl e List.mem_cons_self
    change (r.shortRange e.1 e.2 >>= fun _ => r.kickEach kicks).Ends _ s _
    rw [Act.ends_bind]
    apply (hfirst.ends_shortRange r e.1).mono _ fun _ he => he.1
    intro _ s' hkicks
    exact ih (fun e' he' => (hl e' (List.mem_cons_of_mem e he')).of_kicks hkicks) (hkicks.isWarm hi)

/-- Kicked gas is within its limits, and over any kicks its energy does not become negative. -/
theorem gas_stays_limited [Scalar.HasRoots α] (hv : 0 ≤ r.gas.maxSpeed) (s : Store α) :
    (∀ (t : TimeFactors α) (ks : List Stretch), Lists s ks → 0 < t.a3inv →
      (∀ k ∈ ks, (particle s k).isGas → 0 < (particle s k).eomDensity) →
        (r.shortRange t ks).Ends (fun e => e.isGap ∧ ¬ r.Continue s ks) s fun _ s' =>
          ∀ k ∈ ks, (particle s k).isGas →
            ∃ q, s'[k.place]? = some q ∧ r.Limited t k (particle s k) q) ∧
      ∀ (kicks : List (TimeFactors α × List Stretch)) (i : Nat),
        (∀ e ∈ kicks, Lists s e.2) → IsWarm s i →
          (r.kickEach kicks).Ends (fun e => e.isGap) s fun _ s' => IsWarm s' i := by
  constructor
  · intro t ks hl ha hd
    apply (hl.ends_shortRange r t).mono _ fun _ he => he
    intro _ s' hkicks k hk hgas
    exact ⟨_, hkicks.listed k hk, limited_listedOne hv hgas ha (hd k hk hgas)⟩
  · intro kicks i hl hi
    exact ends_kickEach kicks hl hi

section Sample

noncomputable def sampleGas : Particle ℝ :=
  { (default : Particle ℝ) with
    kind := 0, vel := ⟨3, 4, 0⟩, hydroAccel := .zero, energy := 1,
    energyRate := -1, eomDensity := 1 }

noncomputable def sampleKicker : Kicker ℝ := ⟨.linear 1 1, 8, ⟨1, 3⟩, false, true⟩

noncomputable def sampleFactors : TimeFactors ℝ := ⟨1, 1, 1, 1⟩

theorem gas_stays_limited_sample :
    ((sampleKicker.shortRange sampleFactors [⟨0, 0, 4⟩]).Ends
        (fun e => e.isGap ∧ ¬ sampleKicker.Continue #[sampleGas] [⟨0, 0, 4⟩]) #[sampleGas]
          fun _ s' =>
          ∃ q, s'[0]? = some q ∧ sampleKicker.Limited sampleFactors ⟨0, 0, 4⟩ sampleGas q) ∧
      (sampleKicker.kickEach [(sampleFactors, [⟨0, 0, 4⟩]), (sampleFactors, [⟨0, 4, 8⟩])]).Ends
        (fun e => e.isGap) #[sampleGas] fun _ s' => IsWarm s' 0 := by
  have hspeed : (0 : ℝ) ≤ sampleKicker.gas.maxSpeed := zero_le_one
  have hlists (start stop : Int) : Lists #[sampleGas] [⟨0, start, stop⟩] :=
    ⟨List.nodup_singleton 0, by simp⟩
  obtain ⟨hlimited, hwarm⟩ := gas_stays_limited hspeed #[sampleGas]
  constructor
  · have hkick := hlimited sampleFactors [⟨0, 0, 4⟩] (hlists 0 4) one_pos (by
      intro k hk _
      obtain rfl := List.mem_singleton.1 hk
      exact one_pos)
    exact hkick.mono (fun _ s' h => h ⟨0, 0, 4⟩ List.mem_cons_self rfl) fun _ he => he
  · apply hwarm
    · intro e he
      simp only [List.mem_cons, List.not_mem_nil, or_false] at he
      rcases he with rfl | rfl
      · exact hlists 0 4
      · exact hlists 4 8
    · exact ⟨sampleGas, rfl, rfl, zero_le_one⟩

end Sample

end Kicker

end BlockStep

import BlockStep.Proofs.Epochs
import BlockStep.Proofs.GasBounds
import BlockStep.Proofs.MeshLength
import BlockStep.Proofs.Placement
import BlockStep.Proofs.Spread

namespace BlockStep

variable {α σ : Type} [ExactScalar α] {m : Nat}

instance : Scalar.Exact α where
  add_comm := add_comm
  add_assoc := add_assoc
  zero_add_zero := by rw [ExactScalar.zero_eq, add_zero]
  lower_comm x y := by rw [Scalar.lower_exact, Scalar.lower_exact, min_comm]
  lower_assoc x y z := by simp only [Scalar.lower_exact, min_assoc]
  lower_self x := by rw [Scalar.lower_exact, min_self]

namespace KindStats

def group (f : Features) (kind : Fin 6) : List (Fin 6) :=
  if !f.starFormation then [kind]
  else if kind = 4 then [0, 4]
  else if f.blackHoles && (kind = 0 || kind = 5) then [0, 4, 5]
  else if kind = 0 then [0, 4]
  else [kind]

variable (s : KindStats α) (f : Features) (kind : Fin 6)

def groupSum : α := ((group f kind).map s.sums.get).sum

def groupCount : Int := ((group f kind).map s.counts.get).sum

def groupLeast : α := s.leasts.get (if f.starFormation && f.blackHoles && kind = 5 then 0 else kind)

def groupSpeed : α := Scalar.sqrt (s.groupSum f kind / (s.groupCount f kind : α))

theorem get_merged : (s.merged f).sums.get kind = s.groupSum f kind ∧
    (s.merged f).counts.get kind = s.groupCount f kind ∧
    (s.merged f).leasts.get kind = s.groupLeast f kind := by
  have hget {β : Type} (v : Vector β 6) (k : Fin 6) : v.get k = v[k.val] := rfl
  obtain ⟨holes, stars, glass⟩ := f
  cases stars <;> cases holes <;> fin_cases kind <;>
    simp [merged, withStars, withHoles, groupSum, groupCount, groupLeast, group, hget, add_assoc]

theorem groupSum_nonneg (h : ∀ k, 0 ≤ s.sums.get k) : 0 ≤ s.groupSum f kind := by
  apply List.sum_nonneg
  intro x hx
  obtain ⟨k, -, rfl⟩ := List.mem_map.1 hx
  exact h k

theorem sums_ofStore_nonneg (store : Store α) : 0 ≤ (ofStore store).sums.get kind := by
  have hget : (ofStore store).sums.get kind =
      Scalar.sum ((members store kind).map fun p => p.vel.normSq) := Vector.getElem_ofFn kind.isLt
  rw [hget]
  refine List.foldlRecOn _ _ ExactScalar.zero_eq.ge ?_
  intro x hx y hy
  obtain ⟨p, -, rfl⟩ := List.mem_map.1 hy
  exact add_nonneg hx p.vel.normSq_nonneg

theorem leasts_ofStore_pos (store : Store α) : 0 < (ofStore store).leasts.get kind := by
  have hget : (ofStore store).leasts.get kind = (((members store kind).map (·.mass)).filter
      fun m => (0.0 : α) < m).foldl Scalar.lower leastSeed := Vector.getElem_ofFn kind.isLt
  have hseed : (0 : α) < leastSeed := ExactScalar.ofScientific_pos (by norm_num)
  rw [hget]
  refine List.foldlRecOn _ _ hseed ?_
  intro x hx y hy
  have hpos := (List.mem_filter.1 hy).2
  rw [decide_eq_true_eq, ExactScalar.zero_eq] at hpos
  rw [Scalar.lower_exact]
  exact lt_min hx hpos

end KindStats

namespace TickCount

/-- The next larger step. -/
def next (ticks : Int) : Int := if ticks = 0 then 1 else 2 * ticks

theorem next_zero : next 0 = 1 := rfl

theorem next_pow2 (b : Nat) : next (pow2 b) = pow2 (b + 1) := by
  have hpos := pow2_pos b
  rw [next, if_neg (by omega), pow2_succ, Int.natCast_mul]
  rfl

theorem next_le {ticks ticks' : Int} (h : IsStep ticks) (h' : IsStep ticks')
    (hlt : ticks < ticks') : next ticks ≤ ticks' := by
  rcases h with rfl | ⟨b, -, rfl⟩
  · rw [next_zero]
    exact hlt
  · rcases h' with rfl | ⟨b', -, rfl⟩
    · omega
    · have hb : b < b' := lt_of_pow2_lt (Int.ofNat_lt.1 hlt)
      rw [next_pow2]
      exact Int.ofNat_le.2 (pow2_le hb)

theorem lt_next_roundDown {ticks most : Int} (h0 : 0 ≤ ticks) (hm : IsStep most)
    (hlt : roundDown ticks < most) : ticks < next (roundDown ticks) := by
  by_cases hpos : 1 ≤ ticks
  · obtain ⟨b, hb, -, -, hup⟩ := roundDown_spec hpos
    rw [hb] at hlt ⊢
    rw [next_pow2]
    rcases hup with hup | rfl
    · exact hup
    · rcases hm with rfl | ⟨d, hd, rfl⟩
      · omega
      · exact absurd (pow2_le hd) (Nat.not_le.2 (Int.ofNat_lt.1 hlt))
  · rw [roundDown_of_not_pos (by omega), next_zero]
    omega

end TickCount

namespace Timeline

variable [Scalar.HasWholes α] {t : Timeline α} {length : α}

/-- Rounding finds the largest step of an epoch that fits into a length. -/
theorem roundDown_stepIn (h : t.IsClock) (hbase : TickCount.IsStep t.timebase) (h0 : 0 ≤ length)
    (epoch : Int) :
    TickCount.roundDown (t.stepIn length epoch) ≤ t.timebase ∧
      TickCount.roundDown (t.stepIn length epoch) * t.interval epoch ≤ length ∧
      (TickCount.roundDown (t.stepIn length epoch) < t.timebase →
        length < TickCount.next (TickCount.roundDown (t.stepIn length epoch)) *
          t.interval epoch) := by
  have hinterval := (h.interval_pos epoch).le
  have hpos := h.timebase_pos
  obtain ⟨k, hk, hle, hlt⟩ := stepIn_spec h length epoch
  have hcut : 0 ≤ t.stepIn length epoch := by omega
  have hround := TickCount.roundDown_le hcut
  refine ⟨by omega, ?_, fun hless => ?_⟩
  · by_cases hneg : k < 0
    · rw [TickCount.roundDown_of_not_pos (by omega), Int.cast_zero, zero_mul]
      exact h0
    · have hstep : TickCount.roundDown (t.stepIn length epoch) ≤ k := by omega
      exact (mul_le_mul_of_nonneg_right (Int.cast_le.2 hstep) hinterval).trans hle
  · -- below an epoch the ticks in the length are not cut
    have hnext := TickCount.lt_next_roundDown hcut hbase hless
    have hmost := TickCount.next_le (TickCount.isStep_roundDown _) hbase hless
    have hstep : ((k + 1 : Int) : α) ≤
        TickCount.next (TickCount.roundDown (t.stepIn length epoch)) :=
      Int.cast_le.2 (by omega)
    rw [Int.cast_add, Int.cast_one] at hstep
    exact hlt.trans_le (mul_le_mul_of_nonneg_right hstep hinterval)

end Timeline

/-- What the mesh step relies on of a configuration that has passed its checks. -/
structure Config.IsChecked (c : Config α) : Prop where
  bins_le : c.timeline.bins ≤ Fault.mostBins
  maxSize_pos : 0 < c.step.maxSize
  displacement_pos : 0 < c.mesh.displacement
  asmth_pos : 0 < c.mesh.asmth
  cells_pos : 0 < c.mesh.cells
  hubble_pos : 0 < c.cosmology.hubble
  gravity_pos : 0 < c.cosmology.gravity
  boxSize_pos : 0 < c.cosmology.boxSize

namespace MeshStep

variable (c : Config α) (f : TimeFactors α) (s : KindStats α)

def splitLength : α := c.mesh.asmth * c.cosmology.boxSize / (c.mesh.cells : α)

def flatDensity : α :=
  3.0 * Scalar.pow c.cosmology.hubble 2.0 / (8.0 * Scalar.pi * c.cosmology.gravity)

def reach (kind : Fin 6) : α :=
  c.mesh.displacement * f.hubble * f.a ^ 2 *
    min (splitLength c) (spacing (s.groupLeast c.features kind) (densityOf c (flatDensity c) kind))

def KeepsReach (length : α) (kind : Fin 6) : Prop :=
  some (kind.val : Int) ≠ c.mesh.fastKind → 0 < s.groupCount c.features kind →
    0 < s.groupSpeed c.features kind → length * s.groupSpeed c.features kind ≤ reach c f s kind

structure Admits (length : α) : Prop where
  le_maxSize : length ≤ c.step.maxSize
  keepsReach : ∀ kind : Fin 6, KeepsReach c f s length kind

/-- The largest of the steps that are allowed in an epoch: the next one is not, and so no larger
one. -/
structure IsLargest (t : Timeline α) (epoch ticks : Int) : Prop where
  isStep : TickCount.IsStep ticks
  le_timebase : ticks ≤ t.timebase
  admits : Admits c f s (ticks * t.interval epoch)
  next_not_admitted : ticks < t.timebase → ¬ Admits c f s (TickCount.next ticks * t.interval epoch)
  le_of_admits : ∀ ticks', TickCount.IsStep ticks' → ticks' ≤ t.timebase →
    Admits c f s (ticks' * t.interval epoch) → ticks' ≤ ticks

variable {c f s}

theorem splitScale_eq : splitScale c = .ok (splitLength c) := by
  simp only [splitScale, ExactScalar.ofInt_eq, Scalar.isFinite_exact, if_true, splitLength]

theorem flatDensity_pos [Scalar.HasPi α] (hc : c.IsChecked) : 0 < flatDensity c :=
  (CosmologyConfig.criticalDensity_exact hc.hubble_pos hc.gravity_pos).2

theorem criticalDensity_eq [Scalar.HasPi α] (hc : c.IsChecked) :
    c.cosmology.criticalDensity = .ok (flatDensity c) :=
  (CosmologyConfig.criticalDensity_exact hc.hubble_pos hc.gravity_pos).1

theorem reach_nonneg [Scalar.HasPi α] (hc : c.IsChecked) (hH : 0 < f.hubble)
    (hbaryon : 0 < c.cosmology.omegaBaryon) (hcdm : 0 < c.cosmology.omegaCdm)
    (hleast : ∀ k, 0 < s.leasts.get k) (kind : Fin 6) : 0 ≤ reach c f s kind := by
  have hcells : (0 : α) < (c.mesh.cells : α) := Int.cast_pos.2 hc.cells_pos
  have hsplit : 0 < splitLength c := div_pos (mul_pos hc.asmth_pos hc.boxSize_pos) hcells
  have hdensity : 0 < densityOf c (flatDensity c) kind := by
    rw [densityOf]
    split
    · exact mul_pos hbaryon (flatDensity_pos hc)
    · exact mul_pos hcdm (flatDensity_pos hc)
  have hspacing : 0 < spacing (s.groupLeast c.features kind) (densityOf c (flatDensity c) kind) :=
    ExactScalar.pow_pos _ _ (div_pos (hleast _) hdensity)
  exact mul_nonneg (mul_nonneg (mul_nonneg hc.displacement_pos.le hH.le) (sq_nonneg _))
    (le_min hsplit.le hspacing.le)

theorem limitOf_spec (hsum : ∀ k, 0 ≤ s.groupSum c.features k) (length : α) (kind : Fin 6) :
    ∃ l, limitOf c f (splitLength c) (flatDensity c) (s.merged c.features) length kind = .ok l ∧
      ∀ x, x ≤ l ↔ x ≤ length ∧ KeepsReach c f s x kind := by
  obtain ⟨hsums, hcounts, hleasts⟩ := s.get_merged c.features kind
  simp only [limitOf, hsums, hcounts, hleasts]
  by_cases hcount : s.groupCount c.features kind ≤ 0
  · rw [if_pos hcount]
    exact ⟨length, rfl, fun x => ⟨fun h => ⟨h, fun _ hpos => absurd hpos (not_lt.2 hcount)⟩,
      And.left⟩⟩
  · rw [if_neg hcount]
    have hcast : (0 : α) < (s.groupCount c.features kind : α) := Int.cast_pos.2 (not_le.1 hcount)
    have hsquare : ¬ s.groupSum c.features kind / (s.groupCount c.features kind : α) < 0 :=
      not_lt.2 (div_nonneg (hsum kind) hcast.le)
    have hspeed : speed (s.groupSum c.features kind) (s.groupCount c.features kind) =
        .ok (s.groupSpeed c.features kind) := by
      rw [speed, ExactScalar.ofInt_eq, ExactScalar.zero_eq, if_neg hsquare]
      rfl
    have hreach : kindLength c f (Scalar.lesser (splitLength c)
        (spacing (s.groupLeast c.features kind)
        (densityOf c (flatDensity c) kind))) (s.groupSpeed c.features kind) =
          reach c f s kind / s.groupSpeed c.features kind := by
      rw [kindLength, Scalar.lesser_exact, reach]
      ring
    simp only [hspeed, bind, Except.bind, hreach, ExactScalar.zero_eq]
    split
    next h =>
      obtain ⟨hpos, hslow, hlt⟩ := h
      refine ⟨_, rfl, fun x => ?_⟩
      rw [le_div_iff₀ hpos]
      constructor
      · intro hx
        exact ⟨((le_div_iff₀ hpos).2 hx).trans hlt.le, fun _ _ _ => hx⟩
      · rintro ⟨-, hx⟩
        exact hx hslow (not_le.1 hcount) hpos
    next h =>
      refine ⟨_, rfl, fun x => ⟨fun hx => ⟨hx, fun hslow _ hpos => ?_⟩, And.left⟩⟩
      have hle : length ≤ reach c f s kind / s.groupSpeed c.features kind :=
        not_lt.1 fun hlt => h ⟨hpos, hslow, hlt⟩
      exact (le_div_iff₀ hpos).1 (hx.trans hle)

theorem foldlM_limitOf_spec (hsum : ∀ k, 0 ≤ s.groupSum c.features k) (ks : List (Fin 6))
    (length : α) :
    ∃ l, ks.foldlM (limitOf c f (splitLength c) (flatDensity c) (s.merged c.features))
      length = .ok l ∧ ∀ x, x ≤ l ↔ x ≤ length ∧ ∀ kind ∈ ks, KeepsReach c f s x kind := by
  induction ks generalizing length with
  | nil => exact ⟨length, rfl, fun x => ⟨fun h => ⟨h, nofun⟩, And.left⟩⟩
  | cons k ks ih =>
    obtain ⟨l, hl, hiff⟩ := limitOf_spec (f := f) hsum length k
    obtain ⟨l', hl', hiff'⟩ := ih l
    refine ⟨l', ?_, fun x => ?_⟩
    · rw [List.foldlM_cons, hl]
      exact hl'
    · rw [hiff', hiff, and_assoc, List.forall_mem_cons]

theorem lengthOf_spec [Scalar.HasPi α] (hc : c.IsChecked)
    (hsum : ∀ k, 0 ≤ s.groupSum c.features k) :
    ∃ l, lengthOf c f s = .ok l ∧ ∀ x, x ≤ l ↔ Admits c f s x := by
  obtain ⟨l, hl, hiff⟩ := foldlM_limitOf_spec (f := f) hsum kinds c.step.maxSize
  refine ⟨l, ?_, fun x => ?_⟩
  · rw [lengthOf, splitScale_eq, criticalDensity_eq hc]
    exact hl
  · rw [hiff]
    constructor
    · rintro ⟨hmax, hreach⟩
      exact ⟨hmax, fun kind => hreach kind (List.mem_finRange kind)⟩
    · rintro ⟨hmax, hreach⟩
      exact ⟨hmax, fun kind _ => hreach kind⟩

variable [Scalar.HasWholes α] [Scalar.HasPi α] {t : Timeline α}

theorem ticksOf_spec (hc : c.IsChecked) (ht : Timeline.make c.timeline.timeBegin c.timeline.timeMax
      c.timeline.outputs c.timeline.timebase = .ok t) (hH : 0 < f.hubble)
    (hbaryon : 0 < c.cosmology.omegaBaryon) (hcdm : 0 < c.cosmology.omegaCdm)
    (hsum : ∀ k, 0 ≤ s.groupSum c.features k) (hleast : ∀ k, 0 < s.leasts.get k) (epoch : Int) :
    ∃ ticks, ticksOf c t f s epoch = .ok ticks ∧ IsLargest c f s t epoch ticks := by
  obtain ⟨hclock, hbase⟩ := Timeline.isClock_of_make ht (Int.natCast_pos.2 (pow2_pos _))
  obtain ⟨l, hl, hiff⟩ := lengthOf_spec (f := f) hc hsum
  have h0 : 0 ≤ l := by
    rw [hiff]
    constructor
    · exact hc.maxSize_pos.le
    · intro kind _ _ _
      rw [zero_mul]
      exact reach_nonneg hc hH hbaryon hcdm hleast kind
  have hbins : TickCount.IsStep t.timebase := by
    have hle := hc.bins_le
    rw [Fault.mostBins] at hle
    exact .inr ⟨c.timeline.bins - 1, by omega, hbase⟩
  have hstep := TickCount.isStep_roundDown (t.stepIn l epoch)
  obtain ⟨hle, hfits, hnext⟩ := Timeline.roundDown_stepIn hclock hbins h0 epoch
  refine ⟨TickCount.roundDown (t.stepIn l epoch), ?_, ?_⟩
  · rw [ticksOf, hl]
    rfl
  constructor
  case isStep => exact hstep
  case le_timebase => exact hle
  case admits => exact (hiff _).1 hfits
  case next_not_admitted =>
    intro hlt
    rw [← hiff]
    exact not_le.2 (hnext hlt)
  case le_of_admits =>
    intro ticks hticks hmost hadmits
    by_contra hlarger
    have hlt := not_le.1 hlarger
    have hcast : (TickCount.next (TickCount.roundDown (t.stepIn l epoch)) : α) ≤ ticks :=
      Int.cast_le.2 (TickCount.next_le hstep hticks hlt)
    have hlong := (hnext (hlt.trans_le hmost)).trans_le
      (mul_le_mul_of_nonneg_right hcast (hclock.interval_pos epoch).le)
    exact absurd ((hiff _).2 hadmits) (not_le.2 hlong)

/-- The mesh step for any joint numbers, and the step that any ranks of particles find together, are
the largest that these numbers allow. -/
theorem next_isLargest (hc : c.IsChecked)
    (ht : Timeline.make c.timeline.timeBegin c.timeline.timeMax c.timeline.outputs
       c.timeline.timebase = .ok t) (hH : 0 < f.hubble)
    (hbaryon : 0 < c.cosmology.omegaBaryon) (hcdm : 0 < c.cosmology.omegaCdm) (epoch : Int) :
    (∀ s : KindStats α, (∀ k, 0 ≤ s.groupSum c.features k) → (∀ k, 0 < s.leasts.get k) →
      ∃ ticks, (nextOf c t f epoch s : Act α σ Int).Yields (.ok ticks) ∧
        IsLargest c f s t epoch ticks) ∧
    ∀ (store : Ranks m (Store α)) (s : Ranks m σ), (∀ i, ∀ p ∈ store i, Kind.Exists p.kind) →
      Joint (fun _ => False) (fun _ => False)
        (fun i => (next c t f (store i) epoch : Act α σ Int)) s
        fun ticks s' => s' = s ∧ ∃ all, (∀ i, ticks i = all) ∧
          IsLargest c f (.ofStore (Ranks.particles store).toArray) t epoch all := by
  constructor
  · intro s hsum hleast
    obtain ⟨ticks, hticks, hlargest⟩ := ticksOf_spec hc ht hH hbaryon hcdm hsum hleast epoch
    exact ⟨ticks, hticks ▸ yields_nextOf epoch s, hlargest⟩
  · intro store s hk
    obtain ⟨all, hall, hlargest⟩ := ticksOf_spec
      (s := .ofStore (Ranks.particles store).toArray) hc ht hH hbaryon hcdm
      (fun k => KindStats.groupSum_nonneg _ _ k fun j => KindStats.sums_ofStore_nonneg j _)
      (fun k => KindStats.leasts_ofStore_pos k _) epoch
    rw [← KindStats.agreed_ofStore] at hall
    apply (Joint.meshNext hk fun e he => by cases hall.symm.trans he).mono
    rintro ticks s' ⟨hs, hticks⟩
    exact ⟨hs, all, fun i => Except.ok.inj ((hticks i).symm.trans hall), hlargest⟩

section Sample

def starConfig : Config Rat :=
  { Sample.config with
    cosmology := ⟨1, 0, 0.25, 1, 0.01, 128⟩
    mesh := ⟨1, 128, 0.375, some 1⟩
    features := ⟨true, true, false⟩ }

def starClock : Timeline Rat := Timeline.ofEdges ([1, 2].map Scalar.log) 8

def starStore : Ranks 1 (Store Rat)
  | 0 => #[{ Sample.particle 0 with kind := 0, vel := ⟨0, 0, 0⟩ },
      { Sample.particle 1 with kind := 1, vel := ⟨100, 0, 0⟩ }]
  | 1 => #[{ Sample.particle 2 with kind := 4, vel := ⟨2, 2, 0⟩ }]

theorem next_isLargest_sample :
    ticksOf starConfig starClock ⟨1, 1, 1, 1⟩ (.ofStore (Ranks.particles starStore).toArray) 0 =
        .ok 1 ∧
      (∃ ticks, IsLargest starConfig ⟨1, 1, 1, 1⟩ (.ofStore (Ranks.particles starStore).toArray)
        starClock 0 ticks) ∧
      Joint (fun _ => False) (fun _ => False) (fun i => (next starConfig starClock ⟨1, 1, 1, 1⟩
          (starStore i) 0 : Act Rat Unit Int)) (fun _ => ())
        fun ticks _ => ticks 0 = ticks 1 ∧ IsLargest starConfig ⟨1, 1, 1, 1⟩
          (.ofStore (Ranks.particles starStore).toArray) starClock 0 (ticks 0) := by
  have hchecked : starConfig.IsChecked := by
    constructor <;> decide +kernel
  have hmake : Timeline.make (1 : Rat) 2 [] 8 = .ok starClock :=
    Timeline.make_eq [] (by decide +kernel) (by decide +kernel) (by decide +kernel)
  obtain ⟨hall, hjoint⟩ := next_isLargest (σ := Unit) (m := 1) (c := starConfig) (f := ⟨1, 1, 1, 1⟩)
    hchecked hmake (by decide +kernel) (by decide +kernel) (by decide +kernel) 0
  refine ⟨by decide +kernel, ?_, ?_⟩
  · obtain ⟨ticks, -, hlargest⟩ := hall (.ofStore (Ranks.particles starStore).toArray)
      (by decide +kernel) (by decide +kernel)
    exact ⟨ticks, hlargest⟩
  · apply (hjoint starStore (fun _ => ()) (by decide)).mono
    rintro ticks _ ⟨-, all, hticks, hlargest⟩
    rw [hticks 0, hticks 1]
    exact ⟨rfl, hlargest⟩

end Sample

end MeshStep

end BlockStep

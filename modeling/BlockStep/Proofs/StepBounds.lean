import BlockStep.Proofs.Degenerate

namespace BlockStep

variable {α : Type} [ExactScalar α] {m n : Nat}

open Extended

namespace Criterion

variable {c : Config (Extended α)} {t : Timeline (Extended α)} {i : Instant (Extended α)}
  {w : GasWeights (Extended α)} {most epoch : Int} {p : Particle (Extended α)} {l h : α}

theorem ticks_mul_le_length [Scalar.HasWholes α] {s : StepConfig (Extended α)}
    (hmin : s.minSize = 0.0)
    (hl : 0 < l) (hinterval : t.interval epoch = real l) (h0 : 0 < most) (hm : most ≤ t.timebase)
    {length : Extended α} (hd : ¬ (stepOf s t most epoch length).isFault) :
    real ((stepOf s t most epoch length).ticks * l) ≤ length := by
  have hcut := cut_stepOf s h0 hm epoch length
  rw [hcut.isFault_eq, decide_eq_true_eq, not_le] at hd
  have hfloor := hcut.real_le hd
  rw [Timeline.ticksIn, hinterval] at hfloor
  have hle := real_le_of_le_floor hl hfloor
  by_cases hlow : length < s.minSize
  · -- the least length is none, into which no tick fits
    have hlength : (stepOf s t most epoch length).length = real 0 := by
      rw [← zero_eq, ← hmin]
      exact if_pos hlow
    rw [hlength, real_le_real] at hle
    have hpos : (0 : α) < (stepOf s t most epoch length).ticks := by exact_mod_cast (by omega)
    exact absurd (mul_pos hpos hl) (not_lt.2 hle)
  · have hlength : (stepOf s t most epoch length).length = length := if_neg hlow
    rwa [hlength] at hle

def lasting {α : Type} [Scalar α] (t : Timeline α) (f : TimeFactors α) (epoch ticks : Int) : α :=
  t.length (Scalar.ofInt ticks) epoch / f.hubble

/-- A clock that advances and an instant that expands, with no least step. -/
structure IsOrdinary (c : Config (Extended α)) (t : Timeline (Extended α))
    (i : Instant (Extended α)) (epoch : Int) : Prop where
  no_least : c.step.minSize = 0.0
  courant : Scalar.isFinite c.step.courant
  interval : ∃ l : α, 0 < l ∧ t.interval epoch = real l
  hubble : ∃ h : α, 0 < h ∧ i.factors.hubble = real h
  scale : ∃ a : α, 0 < a ∧ i.factors.a = real a

/-- A particle of a known kind whose columns for the bounds beside gravity are numbers. -/
structure IsNumeric (p : Particle (Extended α)) : Prop where
  kind : (Store.position? Kind.count p.kind).isSome
  smoothing : Scalar.isFinite p.smoothing
  signalVel : Scalar.isFinite p.signalVel
  holeMass : Scalar.isFinite p.holeMass
  holeRate : Scalar.isFinite p.holeRate

/-- A step of some ticks is within each bound that is in force for a particle. -/
structure Honours {α : Type} [Scalar α] (c : Config α) (t : Timeline α) (i : Instant α)
    (w : GasWeights α) (epoch : Int) (p : Particle α) (ticks : Int) : Prop where
  gravity : lasting t i.factors epoch ticks ≤ gravityBound c.step i w p
  courant : p.isGas → (0.0 : α) < p.signalVel →
    lasting t i.factors epoch ticks ≤ courantBound c.step i.factors w p
  accretion : c.features.blackHoles → p.kind = Kind.hole → (0.0 : α) < p.holeRate →
    (0.0 : α) < p.holeMass → lasting t i.factors epoch ticks ≤ 0.25 * p.holeMass / p.holeRate
  limit : c.features.blackHoles → p.kind = Kind.hole → 0 < p.holeBinLimit →
    lasting t i.factors epoch ticks ≤ lasting t i.factors epoch (TickCount.cadence p.holeBinLimit)

theorem courantBound_ne_undefined (ho : IsOrdinary c t i epoch) (hp : IsNumeric p)
    (hsignal : ∃ v : α, 0 < v ∧ w.signal = real v) (hpos : (0.0 : Extended α) < p.signalVel) :
    courantBound c.step i.factors w p ≠ .undefined := by
  obtain ⟨k, hk⟩ := isFinite_iff.1 ho.courant
  obtain ⟨a, -, ha⟩ := ho.scale
  obtain ⟨v, hv, hw⟩ := hsignal
  obtain ⟨s, hs⟩ := isFinite_iff.1 hp.smoothing
  obtain ⟨x, hx⟩ := isFinite_iff.1 hp.signalVel
  rw [hx, zero_eq, real_lt_real] at hpos
  rw [courantBound, hk, ha, hw, hs, hx, literal_eq, real_mul, real_mul, real_mul, real_mul,
    real_div (mul_pos hv hpos).ne']
  exact real_ne_undefined _

theorem accretion_ne_undefined (hp : IsNumeric p) (hpos : (0.0 : Extended α) < p.holeRate) :
    0.25 * p.holeMass / p.holeRate ≠ .undefined := by
  obtain ⟨x, hx⟩ := isFinite_iff.1 hp.holeMass
  obtain ⟨y, hy⟩ := isFinite_iff.1 hp.holeRate
  rw [hy, zero_eq, real_lt_real] at hpos
  rw [hx, hy, literal_eq, real_mul, real_div hpos.ne']
  exact real_ne_undefined _

theorem lasting_eq (hl : t.interval epoch = real l) (hh : i.factors.hubble = real h) (h0 : 0 < h)
    (ticks : Int) : lasting t i.factors epoch ticks = real (ticks * l / h) := by
  rw [lasting, Timeline.length, hl, hh, ofInt_eq, real_mul, real_div h0.ne']

theorem lasting_le_lasting (ho : IsOrdinary c t i epoch) {ticks ticks' : Int} :
    lasting t i.factors epoch ticks ≤ lasting t i.factors epoch ticks' ↔ ticks ≤ ticks' := by
  obtain ⟨l, hl0, hl⟩ := ho.interval
  obtain ⟨h, hh0, hh⟩ := ho.hubble
  rw [lasting_eq hl hh hh0, lasting_eq hl hh hh0, real_le_real, div_le_div_iff_of_pos_right hh0,
    mul_le_mul_iff_left₀ hl0, Int.cast_le]

theorem lasting_le_of_le_wish [Scalar.HasWholes α] (ho : IsOrdinary c t i epoch)
    (htree : c.step.treeGravity) (h0 : 0 < most) (hm : most ≤ t.timebase)
    (hd : ¬ (wish c t i most epoch p).isFault) {ticks : Int}
    (hle : ticks ≤ (wish c t i most epoch p).ticks) :
    lasting t i.factors epoch ticks ≤ gravityBound c.step i (weights i) p ∧
      ∀ y ∈ bounds c t i.factors (weights i) epoch p, y ≠ .undefined →
        lasting t i.factors epoch ticks ≤ y := by
  obtain ⟨l, hl0, hl⟩ := ho.interval
  obtain ⟨h, hh0, hh⟩ := ho.hubble
  have hwish : wish c t i most epoch p =
      stepOf c.step t most epoch (longest c t i (weights i) epoch p) := by
    simp only [wish, common?_eq_none htree h0]
  rw [hwish] at hd hle
  have hlength := ticks_mul_le_length ho.no_least hl0 hl h0 hm hd
  conv_rhs at hlength => rw [longest, hh]
  have hticks : (ticks * l / h : α) ≤
      (stepOf c.step t most epoch (longest c t i (weights i) epoch p)).ticks * l / h := by
    rw [div_le_div_iff_of_pos_right hh0, mul_le_mul_iff_left₀ hl0, Int.cast_le]
    exact hle
  rw [lasting_eq hl hh hh0]
  exact real_le_of_le_foldl_lesser (real_le_trans hticks (real_le_of_le_mul hh0 hlength))

theorem weights_eq (h : i.factors.gasWeights = .ok w) : weights i = w := by
  rw [weights, h]

/-- A step within a usable wish honours the bounds. -/
theorem honours_of_le_wish [Scalar.HasWholes α] (ho : IsOrdinary c t i epoch) (hp : IsNumeric p)
    (htree : c.step.treeGravity) (h0 : 0 < most) (hm : most ≤ t.timebase)
    (hw : i.factors.gasWeights = .ok w) (hd : ¬ (wish c t i most epoch p).isFault) {ticks : Int}
    (hle : ticks ≤ (wish c t i most epoch p).ticks) : Honours c t i w epoch p ticks := by
  obtain ⟨hgravity, hbounds⟩ := lasting_le_of_le_wish ho htree h0 hm hd hle
  rw [weights_eq hw] at hgravity hbounds
  constructor
  case gravity => exact hgravity
  case courant =>
    intro hgas hpos
    obtain ⟨a, ha0, ha⟩ := ho.scale
    obtain ⟨w', v, hv, hw', hsignal⟩ := exists_gasWeights ha0 ha
    cases hw.symm.trans hw'
    apply hbounds _ ?_ (courantBound_ne_undefined ho hp ⟨v, hv, hsignal⟩ hpos)
    rw [bounds, if_pos hgas]
    exact List.mem_append_left _ (List.mem_singleton_self _)
  case accretion =>
    intro hon hkind hrate hmass
    apply hbounds _ ?_ (accretion_ne_undefined hp hrate)
    have hbound : accretionBound? p = some (0.25 * p.holeMass / p.holeRate) := if_pos ⟨hrate, hmass⟩
    rw [bounds, hon, hkind, beq_self_eq_true, Bool.and_self, if_pos rfl, hbound]
    exact List.mem_append_right _ (List.mem_append_left _ (List.mem_singleton_self _))
  case limit =>
    intro hon hkind hpos
    obtain ⟨l, -, hl⟩ := ho.interval
    obtain ⟨h, hh0, hh⟩ := ho.hubble
    apply hbounds
    · have hbound : limitBound? t i.factors epoch p =
          some (lasting t i.factors epoch (TickCount.cadence p.holeBinLimit)) := if_pos hpos
      rw [bounds, hon, hkind, beq_self_eq_true, Bool.and_self, if_pos rfl, hbound]
      exact List.mem_append_right _ (List.mem_append_right _ (List.mem_singleton_self _))
    · rw [lasting_eq hl hh hh0]
      exact real_ne_undefined _

theorem honours_place [Scalar.HasWholes α] {n : Nat} {f : Nat → Bool} {want b : Int}
    (ho : IsOrdinary c t i epoch) (hp : IsNumeric p) (htree : c.step.treeGravity) (h0 : 0 < most)
    (hm : most ≤ t.timebase) (hw : i.factors.gasWeights = .ok w)
    (hd : ¬ (wish c t i most epoch p).isFault) (hround : 1 < TickCount.roundDown want)
    (hle : want ≤ (wish c t i most epoch p).ticks) (hb : b = (Assign.place n f want p.bin).bin) :
    TickCount.cadence b ≤ most ∧ Honours c t i w epoch p (TickCount.cadence b) ∧
      (c.features.blackHoles → p.kind = Kind.hole → 0 < p.holeBinLimit → b ≤ p.holeBinLimit) := by
  have hwish : TickCount.cadence b ≤ (wish c t i most epoch p).ticks := by
    rw [hb]
    exact (Assign.cadence_place_le hround).trans hle
  have hhonours := honours_of_le_wish ho hp htree h0 hm hw hd hwish
  refine ⟨hwish.trans (agrees_wish htree h0 hm p).le_most, hhonours, ?_⟩
  intro hon hkind hpos
  obtain ⟨k, hle, -, hk⟩ := Assign.place_bin_le n f p.bin hround
  exact TickCount.le_of_cadence_le (by omega) hpos
    ((lasting_le_lasting ho).1 (hhonours.limit hon hkind hpos))

end Criterion

namespace Stepper

open Criterion

variable {u : Setup (Extended α)} {s : Ranks m (Stepper (Extended α) n)} {most : Int}

/-- On every rank each active particle is placed, with equal steps or without, and one that has no
fault takes a step within the mesh step and within each bound in force. -/
theorem placed_within_bounds [Scalar.HasWholes α] (w : Ranks m (Option SnapshotWriter))
    (htree : u.config.step.treeGravity) (h0 : 0 < most) (hm : most ≤ u.timeline.timebase)
    (ho : ∀ i, IsOrdinary u.config u.timeline (s i).instant (s i).current.epoch)
    (hp : ∀ i, ∀ p ∈ (s i).activeParticles, IsNumeric p) :
    Joint (fun _ => False) (fun _ => False) (fun i => allot { u with writer := w i } (s i) most) s
      fun a s' => s' = s ∧ ∀ i, ∃ w, (s i).instant.factors.gasWeights = .ok w ∧
        (a i).faults.length = (s i).active.length ∧
        ∀ (k : Nat) (p : Particle (Extended α)), (s i).activeParticles[k]? = some p →
          ∃ q, (a i).placed[k]? = some q ∧ q.ticks = TickCount.cadence q.bin ∧
            ((a i).faults[k]? = some false → q.ticks ≤ most ∧
              Honours u.config u.timeline (s i).instant w (s i).current.epoch p q.ticks ∧
              (u.config.features.blackHoles → p.kind = Kind.hole → 0 < p.holeBinLimit →
                q.bin ≤ p.holeBinLimit)) := by
  have hweights (i : Fin (m + 1)) : ∃ w, (s i).instant.factors.gasWeights = .ok w := by
    obtain ⟨a, ha0, ha⟩ := (ho i).scale
    obtain ⟨w, v, -, hw, -⟩ := exists_gasWeights ha0 ha
    exact ⟨w, hw⟩
  have hagrees (i : Fin (m + 1)) (p : Particle (Extended α)) : Agrees most ((s i).wish u most p) :=
    agrees_wish htree h0 hm p
  apply (joint_allot_of_measured (fun i p hmem _ => ⟨fun _ => hweights i, (hp i p hmem).kind⟩)
    fun i p => (hagrees i p).nonneg).mono
  rintro a s' ⟨hs, rfl⟩
  refine ⟨hs, fun i => ?_⟩
  obtain ⟨w, hw⟩ := hweights i
  refine ⟨w, hw, ?_, ?_⟩
  · simp only [Allotment.faults, allotted, List.length_zipWith, List.length_map, activeParticles,
      Store.gather, min_self]
  intro k p hk
  have hmem := List.mem_of_getElem? hk
  refine ⟨Assign.place n (s i).registry.isActive
    ((commonWish u s most).getD ((s i).wish u most p).ticks) p.bin, ?_, rfl, ?_⟩
  · simp only [allotted, List.getElem?_map, hk, Option.map_some]
  intro hfault
  simp only [Allotment.faults, allotted, List.getElem?_zipWith, List.getElem?_map, hk,
    Option.map_some, Option.some.injEq, Bool.or_eq_false_iff] at hfault
  obtain ⟨hd, hplaced⟩ := hfault
  have hround : 1 < TickCount.roundDown ((commonWish u s most).getD ((s i).wish u most p).ticks) :=
    Int.not_le.1 (of_decide_eq_false hplaced)
  exact honours_place (ho i) (hp i p hmem) htree h0 hm hw (Bool.eq_false_iff.1 hd) hround
    (commonWish_le hmem) rfl

/-- An `advance` of all ranks gives each due particle a step within the mesh step in force and
within each bound, and leaves the others in their bins. -/
theorem advance_within_bounds [Scalar.HasWholes α] {next : Tick} {mesh : MeshStep}
    {w : Ranks m (Option SnapshotWriter)} (hn : 2 ≤ n) (htree : u.config.step.treeGravity)
    (hg : u.config.features.makeGlass = false) (h0 : 0 ≤ mesh.step)
    (hm : mesh.step ≤ u.timeline.timebase) (h : ∀ i, (s i).Ready u next mesh)
    (ho : IsOrdinary u.config u.timeline (s 0).instant next.epoch)
    (hp : ∀ i, ∀ p ∈ (s i).activeParticles, IsNumeric p) :
    Joint (fun _ => True) (fun _ => True) (fun i => advance { u with writer := w i } true) s
      fun _ s' => ∃ (c : Course (Extended α)) (w : GasWeights (Extended α)), c.next = next ∧
        c.instant = (s 0).instant ∧ c.Meshed u mesh (fun i => (s i).store) ∧
        c.instant.factors.gasWeights = .ok w ∧
        ∀ i (l : Nat) (p : Particle (Extended α)), (s i).store[l]? = some p →
          ∃ q, (s' i).store[l]? = some q ∧
            (¬ c.isDue n p → q.bin = p.bin) ∧
            (c.isDue n p → TickCount.cadence q.bin ≤ c.most ∧
              Honours u.config u.timeline c.instant w next.epoch p (TickCount.cadence q.bin) ∧
              (u.config.features.blackHoles → p.kind = Kind.hole → 0 < p.holeBinLimit →
                q.bin ≤ p.holeBinLimit)) := by
  apply joint_advance hg
  have hready (i : Fin (m + 1)) : Ready u next mesh { s i with phase := .assign } :=
    (h i).withRecords
  have hinstant (i : Fin (m + 1)) : (s i).instant = (s 0).instant :=
    Except.ok.inj ((h i).instant.symm.trans (h 0).instant)
  apply (joint_proceed (A := fun _ => True) (E := fun _ => True) hn hready hinstant
    (fun _ _ _ _ _ => trivial) fun _ _ _ => trivial).mono
  rintro _ s' ⟨c, rfl, hi, hagreed, hzero, hran⟩
  obtain ⟨a, ha0, ha⟩ := ho.scale
  obtain ⟨w, v, -, hw, -⟩ := exists_gasWeights ha0 ha
  rw [← hi] at ho hw
  obtain ⟨hnonneg, hle⟩ := hagreed.most_bounds h0 hm
  refine ⟨c, w, rfl, hi, hagreed.toMeshed, hw, fun i l p hl => ?_⟩
  have hstore : p ∈ (s i).store := Array.mem_of_getElem? hl
  have hslot : (c.after u n mesh p).slot = _ := Course.slot_after p
  have hbin : (c.after u n mesh p).bin = _ := congrArg Slot.bin hslot
  refine ⟨_, (hran i).getElem?_store hl, fun hd => ?_, fun hd => ?_⟩
  · rw [if_neg hd] at hbin
    exact hbin
  · rw [if_pos hd] at hbin
    have hactive : p ∈ (s i).activeParticles := (mem_activeParticles_iff h).2 ⟨hstore, hd⟩
    obtain ⟨hfault, hround⟩ := Course.not_isFault_of_faults hzero hstore hd
    have hwant := hagreed.want_le_wish hstore hd
    have hpos : 0 < c.most := by
      rcases hnonneg.eq_or_lt with hzero | hpos
      · have hticks : (c.wish u p).ticks = 0 := by
          rw [Course.wish, ← hzero]
          rfl
        rw [TickCount.roundDown_of_not_pos (by omega)] at hround
        exact absurd hround (by decide)
      · exact hpos
    exact honours_place ho (hp i p hactive) htree hpos hle hw hfault hround hwant hbin

section Sample

def limitedSetup : Setup (Extended Rat) :=
  { wildSetup with config :=
      { wildConfig with
        step := { (default : StepConfig (Extended Rat)) with equalSteps := true }
        features := ⟨true, false, false⟩ } }

def limitedStores : Ranks 1 (Store (Extended Rat))
  | 0 => #[{ (default : Particle (Extended Rat)) with
      bin := 3, smoothing := .real 2, signalVel := .real 1 }]
  | 1 => #[{ (default : Particle (Extended Rat)) with
      kind := 5, bin := 3, holeMass := .real 4, holeRate := .real 1, holeBinLimit := 1 }]

def limitedRanks : Ranks 1 (Stepper (Extended Rat) 4) := fun i =>
  { wildStepper with store := limitedStores i, active := [0] }

theorem placed_within_bounds_sample :
    (∀ i, (limitedRanks i).activeParticles.map
        (fun p => ((limitedRanks i).wish limitedSetup 4 p).ticks) = if i = 0 then [4] else [2]) ∧
      (∀ i, ((limitedRanks i).allotted limitedSetup 4
        (commonWish limitedSetup limitedRanks 4)).faults = [false]) ∧
      (∀ i, ((limitedRanks i).allotted limitedSetup 4
        (commonWish limitedSetup limitedRanks 4)).placed = [⟨1, 2⟩]) ∧
      Joint (fun _ => False) (fun _ => False) (fun i => allot limitedSetup (limitedRanks i) 4)
        limitedRanks
        fun a s' => s' = limitedRanks ∧ ∀ i, ∃ w,
          (limitedRanks i).instant.factors.gasWeights = .ok w ∧
          ∀ p ∈ (limitedRanks i).activeParticles, ∃ q, (a i).placed[0]? = some q ∧
            ((a i).faults[0]? = some false → q.ticks ≤ 4 ∧
              Honours limitedSetup.config wildTimeline wildInstant w 0 p q.ticks) := by
  refine ⟨by decide +kernel, by decide +kernel, by decide +kernel, ?_⟩
  have hordinary : IsOrdinary limitedSetup.config wildTimeline wildInstant 0 :=
    ⟨rfl, isFinite_real _, ⟨1 / 8, by norm_num, rfl⟩, ⟨1, one_pos, rfl⟩, ⟨1, one_pos, rfl⟩⟩
  have hnumeric : ∀ i, ∀ p ∈ (limitedRanks i).activeParticles, IsNumeric p := by
    intro i p hp
    fin_cases i
    · obtain rfl := List.mem_singleton.1 hp
      exact ⟨rfl, isFinite_real _, isFinite_real _, isFinite_real _, isFinite_real _⟩
    · obtain rfl := List.mem_singleton.1 hp
      exact ⟨rfl, isFinite_real _, isFinite_real _, isFinite_real _, isFinite_real _⟩
  apply (placed_within_bounds (fun _ => none) rfl (by decide : (0 : Int) < 4) (by decide)
    (fun _ => hordinary) hnumeric).mono
  rintro a s' ⟨hs, hranks⟩
  refine ⟨hs, fun i => ?_⟩
  obtain ⟨w, hw, -, hplaced⟩ := hranks i
  refine ⟨w, hw, fun p hp => ?_⟩
  have hk : (limitedRanks i).activeParticles[0]? = some p := by
    obtain rfl := List.mem_singleton.1 hp
    rfl
  obtain ⟨q, hq, -, hhonours⟩ := hplaced 0 p hk
  exact ⟨q, hq, fun hfault => ⟨(hhonours hfault).1, (hhonours hfault).2.1⟩⟩

end Sample

end Stepper

end BlockStep

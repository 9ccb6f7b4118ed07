import BlockStep.Proofs.Extended
import BlockStep.Proofs.Cycle
import BlockStep.Proofs.Growth

namespace BlockStep

variable {α σ : Type} [ExactScalar α]

namespace Criterion

open Extended

def isUnusable {α : Type} [Scalar α] (timebase : Int) (ticks : α) : Bool :=
  Scalar.isNaN ticks || ticks ≤ (1.0 : α) || Scalar.ofInt timebase < ticks

theorem isUnusable_real {k timebase : Int} (h : k ≤ timebase) :
    isUnusable timebase (real (k : α)) = decide (k ≤ 1) := by
  have hbase : ¬ Scalar.ofInt timebase < real (k : α) := by
    rw [ofInt_eq, real_lt_real, Int.cast_lt]
    omega
  have hone : real (k : α) ≤ (1.0 : Extended α) ↔ k ≤ 1 := by
    rw [one_eq, real_le_real]
    exact_mod_cast Iff.rfl
  simp only [isUnusable, isNaN_real, hbase, hone, Bool.false_or, decide_false, Bool.or_false]

theorem lower_eq_left {most : Int} {x : Extended α} (h : ¬ Scalar.ofInt most < x) :
    Scalar.lower x (Scalar.ofInt most) = x := by
  rw [Scalar.lower, if_neg]
  rw [ofInt_eq, isNaN_real, Bool.false_eq_true, or_false, ← ofInt_eq]
  exact h

theorem lower_eq_right {most : Int} {x : Extended α} (h : Scalar.ofInt most < x) :
    Scalar.lower x (Scalar.ofInt most) = real (most : α) := by
  rw [Scalar.lower, if_pos (.inl h), ofInt_eq]

theorem ticksIn_undefined (t : Timeline (Extended α)) (epoch : Int) :
    t.ticksIn .undefined epoch = .undefined := rfl

theorem wholeTicks_undefined (timebase : Int) :
    wholeTicks timebase (.undefined : Extended α) = 0 := rfl

variable [Scalar.HasWholes α]

theorem trunc_cut (k timebase : Int) : Scalar.trunc (Scalar.lesser
    (Scalar.larger (real (k : α)) 0.0) (Scalar.ofInt timebase)) = min (max k 0) timebase := by
  have hcut : min (max (k : α) 0) timebase = (min (max k 0) timebase : Int) := by
    push_cast
    rfl
  rw [zero_eq, larger_real, ofInt_eq, lesser_real, hcut]
  exact Scalar.HasWholes.trunc_intCast _

theorem wholeTicks_real {k timebase : Int} (h0 : 0 ≤ timebase) (h : k ≤ timebase) :
    wholeTicks timebase (real (k : α)) = max k 0 := by
  rw [wholeTicks, isNaN_real, if_neg Bool.false_ne_true, trunc_cut, min_eq_left (max_le h h0)]

theorem wholeTicks_negInf {timebase : Int} (h0 : 0 ≤ timebase) :
    wholeTicks timebase (.negInf : Extended α) = 0 := by
  have hzero := wholeTicks_real (α := α) h0 h0
  rw [Int.cast_zero, wholeTicks, isNaN_real, zero_eq, larger_real, max_self] at hzero
  rw [wholeTicks, zero_eq]
  exact hzero

/-- What a number of ticks comes to under a limit, with the flag that it has. -/
structure Cut (most : Int) (x : Extended α) (ticks : Int) (isFault : Bool) : Prop where
  nonneg : 0 ≤ ticks
  le_most : ticks ≤ most
  isFault_eq : isFault = decide (ticks ≤ 1)
  of_undefined : x = .undefined → ticks = 0
  real_le : 1 < ticks → real (ticks : α) ≤ x

variable {timebase most : Int} {x : Extended α}

theorem cut_real {k : Int} (h0 : 0 < most) (hm : most ≤ timebase) (hk : k ≤ most)
    (hx : real (k : α) ≤ x) :
    Cut most x (wholeTicks timebase (real (k : α))) (isUnusable timebase (real (k : α))) := by
  rw [wholeTicks_real (by omega) (by omega), isUnusable_real (by omega)]
  constructor
  case nonneg => exact le_max_right k 0
  case le_most => omega
  case isFault_eq =>
    rw [decide_eq_decide]
    omega
  case of_undefined =>
    rintro rfl
    exact hx.elim
  case real_le =>
    intro hlt
    rwa [max_eq_left (by omega)]

theorem cut_lower (h0 : 0 < most) (hm : most ≤ timebase) (hx : x.IsWhole) :
    Cut most x (wholeTicks timebase (Scalar.lower x (Scalar.ofInt most)))
      (isUnusable timebase (Scalar.lower x (Scalar.ofInt most))) := by
  have hbase : 0 ≤ timebase := by omega
  cases x with
  | undefined =>
    rw [lower_eq_left id, wholeTicks_undefined]
    exact ⟨le_rfl, h0.le, rfl, fun _ => rfl, fun h => absurd h (by decide)⟩
  | negInf =>
    rw [lower_eq_left id, wholeTicks_negInf hbase]
    exact ⟨le_rfl, h0.le, rfl, nofun, fun h => absurd h (by decide)⟩
  | posInf =>
    have hlt : Scalar.ofInt most < (.posInf : Extended α) := trivial
    rw [lower_eq_right hlt]
    exact cut_real h0 hm le_rfl trivial
  | real a =>
    obtain ⟨i, rfl⟩ := hx
    have hlt : Scalar.ofInt most < real (i : α) ↔ most < i := by
      rw [ofInt_eq, real_lt_real, Int.cast_lt]
    by_cases h : most < i
    · rw [lower_eq_right (hlt.2 h)]
      exact cut_real h0 hm le_rfl (real_le_real.2 (Int.cast_le.2 h.le))
    · rw [lower_eq_left (mt hlt.1 h)]
      exact cut_real h0 hm (not_lt.1 h) (real_le_real.2 le_rfl)

variable {c : Config (Extended α)} {t : Timeline (Extended α)} {i : Instant (Extended α)}
  {epoch : Int}

theorem cut_stepOf (s : StepConfig (Extended α)) (h0 : 0 < most) (hm : most ≤ t.timebase)
    (epoch : Int)
    (length : Extended α) : Cut most (t.ticksIn (stepOf s t most epoch length).length epoch)
      (stepOf s t most epoch length).ticks (stepOf s t most epoch length).isFault :=
  cut_lower h0 hm (isWhole_floor _)

/-- The wish for a step of at most `most` ticks and the placement by it agree. -/
structure Agrees (most : Int) (d : DesiredStep (Extended α)) : Prop where
  nonneg : 0 ≤ d.ticks
  le_most : d.ticks ≤ most
  isFault_iff : d.isFault ↔ d.ticks ≤ 1
  isFault_of_isNaN : Scalar.isNaN d.length → d.isFault
  placement : Assign.isFault (TickCount.roundDown d.ticks) = d.isFault

theorem agrees_stepOf (s : StepConfig (Extended α)) (h0 : 0 < most) (hm : most ≤ t.timebase)
    (length : Extended α) : Agrees most (stepOf s t most epoch length) := by
  have hcut := cut_stepOf s h0 hm epoch length
  have hfault := hcut.isFault_eq
  constructor
  case nonneg => exact hcut.nonneg
  case le_most => exact hcut.le_most
  case isFault_iff => rw [hfault, decide_eq_true_eq]
  case isFault_of_isNaN =>
    intro hnan
    rw [isNaN_iff] at hnan
    rw [hfault, hcut.of_undefined (by rw [hnan, ticksIn_undefined])]
    rfl
  case placement => rw [hfault, Assign.isFault_roundDown]

theorem agrees_wish (ht : c.step.treeGravity) (h0 : 0 < most) (hm : most ≤ t.timebase)
    (p : Particle (Extended α)) : Agrees most (wish c t i most epoch p) := by
  simp only [wish, common?_eq_none ht h0]
  exact agrees_stepOf c.step h0 hm _

theorem isFault_or_iff (ht : c.step.treeGravity) (h0 : 0 ≤ most) (hm : most ≤ t.timebase)
    (p : Particle (Extended α)) : ((wish c t i most epoch p).isFault ||
      Assign.isFault (TickCount.roundDown (wish c t i most epoch p).ticks)) ↔
        (wish c t i most epoch p).ticks ≤ 1 := by
  rcases h0.eq_or_lt with rfl | hpos
  · exact iff_of_true rfl (by decide : (0 : Int) ≤ 1)
  · have hagrees : Agrees most (wish c t i most epoch p) := agrees_wish ht hpos hm p
    rw [hagrees.placement, Bool.or_self, hagrees.isFault_iff]

end Criterion

theorem Timeline.stepIn_le [Scalar.HasWholes α] {t : Timeline (Extended α)} (h0 : 0 ≤ t.timebase)
    (length : Extended α) (epoch : Int) : t.stepIn length epoch ≤ t.timebase := by
  have hwhole : (t.ticksIn length epoch).IsWhole := Extended.isWhole_floor _
  simp only [stepIn]
  generalize t.ticksIn length epoch = x at hwhole ⊢
  by_cases hfin : Scalar.isFinite x
  · obtain ⟨a, rfl⟩ := Extended.isFinite_iff.1 hfin
    obtain ⟨k, rfl⟩ := hwhole
    rw [if_pos hfin, Criterion.trunc_cut]
    exact min_le_right _ _
  · rw [if_neg hfin]
    split
    · exact h0
    · exact le_rfl

namespace Course

variable {m n : Nat} {u : Setup (Extended α)} {mesh : MeshStep} {c : Course (Extended α)}
  {store : Ranks m (Store (Extended α))}

/-- The number of due particles on all ranks that ask for at most one tick. -/
def degenerate (u : Setup (Extended α)) (n : Nat) (c : Course (Extended α))
    (store : Ranks m (Store (Extended α))) : Int :=
  Ranks.total fun i => ((store i).countP fun p => c.isDue n p && (c.wish u p).ticks ≤ 1 : Nat)

variable [Scalar.HasWholes α]

theorem Meshed.most_bounds (h : c.Meshed u mesh store) (h0 : 0 ≤ mesh.step)
    (hm : mesh.step ≤ u.timeline.timebase) : 0 ≤ c.most ∧ c.most ≤ u.timeline.timebase := by
  by_cases ha : c.atMesh u mesh
  · have hticks := h.renewed ha
    exact ⟨(MeshStep.isStep_of_ticksOf hticks).nonneg, MeshStep.ticksOf_le_of_stepIn (h0.trans hm)
      (fun length => Timeline.stepIn_le (h0.trans hm) length _) hticks⟩
  · rw [h.kept ha]
    exact ⟨h0, hm⟩

theorem faults_eq_degenerate (ht : u.config.step.treeGravity) (h0 : 0 ≤ c.most)
    (hm : c.most ≤ u.timeline.timebase) (hown : c.least? = none) :
    c.faults u n store = c.degenerate u n store := by
  have hfault (p : Particle (Extended α)) :
      c.isFault u p = decide ((c.wish u p).ticks ≤ 1) := by
    rw [isFault, want, hown, Option.getD_none, Bool.eq_iff_iff, decide_eq_true_eq]
    exact Criterion.isFault_or_iff ht h0 hm p
  simp only [faults, degenerate, hfault]

end Course

namespace Stepper

variable {n : Nat} {u : Setup (Extended α)} {s : Stepper (Extended α) n} {most : Int}

open Criterion

/-- Where all ranks give new steps that are not equal, no due particle of any rank asks for less
than two ticks; with such particles all ranks fail by their number. -/
theorem advance_counts_degenerate [Scalar.HasWholes α] {m : Nat}
    {s : Ranks m (Stepper (Extended α) n)}
    {next : Tick} {mesh : MeshStep} {w : Ranks m (Option SnapshotWriter)} (hn : 2 ≤ n)
    (ht : u.config.step.treeGravity) (he : ¬ u.config.step.equalSteps)
    (hg : u.config.features.makeGlass = false) (h0 : 0 ≤ mesh.step)
    (hm : mesh.step ≤ u.timeline.timebase) (h : ∀ i, (s i).Ready u next mesh) :
    Joint (fun e => ∃ c : Course (Extended α), c.next = next ∧ c.instant = (s 0).instant ∧
        c.Meshed u mesh (fun i => (s i).store) ∧ c.degenerate u n (fun i => (s i).store) ≠ 0 ∧
        e = .degenerateSteps (c.degenerate u n fun i => (s i).store))
      (fun e => e.degenerate? = none) (fun i => advance { u with writer := w i } true) s
      fun _ _ => ∃ c : Course (Extended α), c.next = next ∧ c.instant = (s 0).instant ∧
        c.Meshed u mesh (fun i => (s i).store) ∧ c.degenerate u n (fun i => (s i).store) = 0 := by
  have hcount {c : Course (Extended α)} (hc : c.Agreed u n mesh fun i => (s i).store) :
      c.faults u n (fun i => (s i).store) = c.degenerate u n fun i => (s i).store := by
    have hmost := hc.most_bounds h0 hm
    exact Course.faults_eq_degenerate ht hmost.1 hmost.2 (hc.own he)
  apply joint_advance hg
  have hready (i : Fin (m + 1)) : Ready u next mesh { s i with phase := .assign } :=
    (h i).withRecords
  have hinstant (i : Fin (m + 1)) : (s i).instant = (s 0).instant :=
    Except.ok.inj ((h i).instant.symm.trans (h 0).instant)
  refine (joint_proceed hn hready hinstant (fun c hnext hi hc hne => ?_) fun e he _ => he).mono ?_
  · rw [hcount hc] at hne ⊢
    exact ⟨c, hnext, hi, hc.toMeshed, hne, rfl⟩
  · rintro _ _ ⟨c, hnext, hi, hc, hzero, -⟩
    exact ⟨c, hnext, hi, hc.toMeshed, (hcount hc).symm.trans hzero⟩

section Sample

def wildTimeline : Timeline (Extended Rat) := ⟨#[.real 0, .real 1], #[.real (1 / 8)], 8⟩

def wildConfig : Config (Extended Rat) where
  timeline := ⟨4, .real 1, .real 2, []⟩
  cosmology := default
  softening := default
  step := default
  mesh := default
  gas := default
  features := default
  debug := default
  transport := .many
  output := default

def wildSetup : Setup (Extended Rat) where
  config := wildConfig
  timeline := wildTimeline
  kicker := wildConfig.kicker (.linear (.real 1) (.real 1)) false
  writer := none

def wildInstant : Instant (Extended Rat) :=
  ⟨⟨.real 1, .real 1, .real 1, .real 1⟩, .replicate 6 (.real 50)⟩

def wildStore : Store (Extended Rat) :=
  #[
    { (default : Particle (Extended Rat)) with
      kind := 1, gravAccel := ⟨.real 1, .real 0, .real 0⟩ },
    { (default : Particle (Extended Rat)) with
      kind := 1, gravAccel := ⟨.undefined, .real 0, .real 0⟩ },
    { (default : Particle (Extended Rat)) with
      kind := 4, meshAccel := ⟨.real 0, .negInf, .real 0⟩ },
    { (default : Particle (Extended Rat)) with smoothing := .real 0, signalVel := .real 0 }]

def wildStepper : Stepper (Extended Rat) 4 where
  store := wildStore
  registry := .empty 4
  active := [0, 1, 2, 3]
  mesh := ⟨0, 4⟩
  current := ⟨0, 0⟩
  scaleFactor := .real 1
  instant := wildInstant
  phase := .forces
  cycle := 0
  due := 4
  rows := []
  shots := []
  seen := []

end Sample

end Stepper

end BlockStep

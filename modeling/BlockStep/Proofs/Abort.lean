import BlockStep.Proofs.MeshLimit
import BlockStep.Proofs.OneRank

namespace BlockStep

/-- Whole numbers are in their order, and one is one. -/
class Scalar.WholeOrdered (α : Type) [Scalar α] : Prop extends Scalar.Ordered α where
  ofInt_lt : ∀ (i j : Int) (x : α), i ≤ j → ofInt j < x → ofInt i < x
  not_one_lt : ∀ x : α, x ≤ 1.0 → ¬ ofInt 1 < x

instance : Scalar.WholeOrdered Rat where
  ofInt_lt i j x h hx := Std.lt_of_le_of_lt (Rat.intCast_le_intCast.2 h) hx
  not_one_lt x h := by
    have hone : (1.0 : Rat) = (1 : Int) := by decide +kernel
    rw [hone] at h
    exact Rat.not_lt.2 h

variable {α : Type} [Scalar α] {m n : Nat}

/-- Whatever they get from other ranks, the forces of a rank leave kinds, bins and starts of
steps. -/
def Forces.KeepSlots (forces : Option (Forces α)) : Prop :=
  ∀ k active tick store, (Forces.act forces k active tick).Always (fun _ _ => True) store
    fun _ store' => store'.slots = store.slots

theorem Forces.keepSlots_none : Forces.KeepSlots (none : Option (Forces α)) :=
  fun _ _ _ _ => Act.always_pure.2 rfl

def MeshStep.IsWithin (timebase ticks : Int) : Prop := TickCount.IsStep ticks ∧ ticks ≤ timebase

theorem MeshStep.isWithin_of_ticksOf [Scalar.Ordered α] {u : Setup α} (hu : u.IsMade)
    {f : TimeFactors α} {stats : KindStats α} {epoch ticks : Int}
    (h : ticksOf u.config u.timeline f stats epoch = .ok ticks) : IsWithin u.timebase ticks := by
  have hpos := hu.timebase_pos
  have hmost := hu.timebase_le
  rw [← hu.timebase_eq] at hpos hmost ⊢
  exact ⟨isStep_of_ticksOf h, ticksOf_le (Int.le_of_lt hpos) hmost h⟩

section Flags

variable [Scalar.WholeOrdered α]

open Scalar.WholeOrdered in
/-- A wish that is a fault is one for at most one tick. -/
theorem Criterion.ticks_wish_le_one {c : Config α} {t : Timeline α} {i : Instant α}
    {most epoch : Int}
    {p : Particle α} (hm : most ≤ t.timebase) (h : (wish c t i most epoch p).isFault) :
    (wish c t i most epoch p).ticks ≤ 1 := by
  rw [wish] at h ⊢
  cases hc : common? c t most epoch with
  | some d =>
    rw [hc] at h
    have hd : d.isFault = false := by
      rw [common?] at hc
      split at hc
      · cases hc
        rfl
      · split at hc
        · cases hc
          rfl
        · cases hc
    exact absurd h (Bool.eq_false_iff.1 hd)
  | none =>
    rw [hc] at h
    dsimp only at h ⊢
    simp only [stepOf, Bool.or_eq_true, decide_eq_true_eq] at h ⊢
    generalize t.ticksIn _ epoch = x at h ⊢
    rw [wholeTicks]
    split
    · decide
    next hnan =>
      have hone : (1 : Int) ≤ pow2 Fault.mostBins := by decide
      rcases h with (h | h) | h
      · exact absurd h hnan
      · exact Scalar.trunc_cut_le (by decide) hone (Bool.eq_false_iff.2 hnan) (not_one_lt _ h)
      · -- the mesh step is no longer than an epoch, so no wish is
        rw [Scalar.lower] at h
        split at h
        · exact absurd (ofInt_lt most t.timebase _ hm h) (Scalar.Ordered.lt_irrefl _)
        next hlt => exact absurd (.inl (ofInt_lt most t.timebase _ hm h)) hlt

theorem Criterion.bin_place_of_isFault {c : Config α} {t : Timeline α} {i : Instant α}
    {most epoch want : Int} {p : Particle α} (hm : most ≤ t.timebase)
    (hle : want ≤ (wish c t i most epoch p).ticks)
    (h : (wish c t i most epoch p).isFault || Assign.isFault (TickCount.roundDown want))
    (isDue : Nat → Bool) : (Assign.place n isDue want p.bin).bin = p.bin := by
  have hfault : Assign.isFault (TickCount.roundDown want) := by
    rcases Bool.or_eq_true _ _ ▸ h with h | h
    · have hone : want ≤ 1 := Int.le_trans hle (ticks_wish_le_one hm h)
      rw [Assign.isFault, decide_eq_true_eq]
      by_cases hpos : 0 ≤ want
      · exact Int.le_trans (TickCount.roundDown_le hpos) hone
      · rw [TickCount.roundDown_of_not_pos (by omega)]
        decide
    · exact h
  rw [Assign.place, if_pos hfault]

end Flags

namespace Stepper

/-- What a rank knows when the faults are summed. -/
structure Tally (α : Type) (n : Nat) where
  /-- The tick, and the numbers of due and of active particles. -/
  lead : Tick × Int × Nat
  /-- The rank as it gave its particles new steps. -/
  rank : Stepper α n
  allotment : Allotment α

/-- New steps for active particles and the faults among them. -/
def tally (u : Setup α) (forces : Option (Forces α)) : Step α n (Tally α n) := do
  let e ← lead u forces
  let s ← Act.get
  let a ← choose u s
  let _ ← turnAll u true s (s.turns a.placed)
  pure ⟨e, s, a⟩

/-- A cycle until the faults are summed. -/
def untilFaults (u : Setup α) (forces : Option (Forces α)) : Step α n (Tally α n) := do
  let s ← Act.get
  if s.phase = .aborted then Act.fail .runAborted
  if isFinished u s then Act.fail .runFinished
  tally u forces

theorem turnover_eq (u : Setup α) (forces : Option (Forces α)) : turnover u forces = (do
    let r ← tally u forces
    sumUp u true r.rank r.allotment
    pure r.lead : Step α n _) := by
  simp only [turnover, proceed, carryOut, tally, bind_assoc, pure_bind]

/-- How a rank has come to the sum of its faults, with what it was before the cycle. -/
structure Tallied (u : Setup α) (s : Stepper α n) (r : Tally α n) (t : Stepper α n) : Prop where
  ready : r.rank.Ready u r.lead.1 s.mesh
  slots : r.rank.store.slots = s.store.slots
  log : r.rank.log = s.log
  isFor : r.allotment.IsFor u r.rank
  turned : ∃ (least? : Option Int) (reg : Registry n),
    r.allotment = r.rank.allotted u r.allotment.most least? ∧
    (¬ u.config.step.equalSteps → least? = none) ∧
    (∀ p ∈ r.rank.activeParticles,
      least?.getD (r.rank.wish u r.allotment.most p).ticks ≤
        (r.rank.wish u r.allotment.most p).ticks) ∧
    t = turned u true r.rank
      (fun p => least?.getD (r.rank.wish u r.allotment.most p).ticks) reg ∧
    t.Ready u r.lead.1 s.mesh

section Reach

variable {u : Setup α} {forces : Option (Forces α)} {s : Stepper α u.bins}

/-- A rank comes to the sum of its faults, or ends by another fault than a degenerate step. -/
theorem always_tally {s : Stepper α n} {E : Fault → Prop} (hn : 2 ≤ n)
    (hE : ∀ e, e.degenerate? = none → E e) (hf : ∀ k active tick store,
      (Forces.act forces k active tick).Always (fun e _ => E e) store
        fun _ st => st.slots = store.slots) :
    (tally u forces).Always (fun e _ => E e) s (Tallied u s) := by
  rw [tally]
  apply Act.always_bind.2
  apply (always_lead (fun e he => hE e (Fault.degenerate?_of_isPlain he)) hf).mono ?_
    fun _ _ he => he
  rintro e s₁ ⟨h₁, hslots, hlog⟩
  apply Act.always_bind.2
  apply Act.always_get.2
  apply Act.always_bind.2
  apply (always_choose h₁).mono ?_ fun e _ he => hE e (Fault.degenerate?_of_isPlain he.isPlain)
  rintro a t ⟨rfl, ha⟩
  obtain ⟨least?, hleast, hown, hle⟩ := ha.shared
  have hturns : t.turns (t.allotted u a.most least?).placed = t.turnsOf _ := turns_allotted least?
  rw [← hleast] at hturns
  rw [hturns]
  apply Act.always_bind.2
  apply (ends_turnAll h₁ hn true _).always.mono ?_ fun e _ he =>
    hE e (Fault.degenerate?_of_isGap he.1)
  rintro moved s₂ ⟨-, reg, rfl, hcounts, hactive, -⟩
  exact Act.always_pure.2 ⟨h₁, hslots, hlog, ha, least?, reg, hleast, hown, hle, rfl,
    h₁.turned hn true _ hcounts hactive⟩

namespace Tallied

variable {s : Stepper α n} {r : Tally α n} {t : Stepper α n} (h : Tallied u s r t)

include h

theorem ready_after : t.Ready u r.lead.1 s.mesh := by
  obtain ⟨_, _, -, -, -, -, hready⟩ := h.turned
  exact hready

theorem log_after : t.log = s.log := by
  obtain ⟨_, _, -, -, -, rfl, -⟩ := h.turned
  exact h.log

theorem mesh_after : t.mesh = r.rank.mesh := by
  obtain ⟨_, _, -, -, -, rfl, -⟩ := h.turned
  rfl

/-- A mesh step that ends is renewed by ticks that a step can have. -/
theorem renewed (hm : r.rank.currentAbsolute u == r.rank.mesh.stop) :
    TickCount.IsStep r.allotment.most ∧ r.rank.currentAbsolute u = t.mesh.stop := by
  obtain ⟨stats, hticks⟩ := h.isFor.renewed (beq_iff_eq.1 hm)
  rw [h.mesh_after]
  exact ⟨MeshStep.isStep_of_ticksOf hticks, beq_iff_eq.1 hm⟩

theorem exists_faults : ∃ least? : Option Int, (¬ u.config.step.equalSteps → least? = none) ∧
    r.allotment.faults = r.rank.activeParticles.map fun p =>
      (r.rank.wish u r.allotment.most p).isFault ||
        Assign.isFault (TickCount.roundDown
          (least?.getD (r.rank.wish u r.allotment.most p).ticks)) := by
  obtain ⟨least?, _, hleast, hown, -⟩ := h.turned
  refine ⟨least?, hown, ?_⟩
  rw [hleast]
  exact faults_allotted least?

theorem bin_of_fault [Scalar.WholeOrdered α] (hm : r.allotment.most ≤ u.timeline.timebase)
    {j l : Nat} (hj : r.rank.active[j]? = some l) (hfault : r.allotment.faults[j]? = some true) :
    ∃ p q : Particle α, s.store[l]? = some p ∧ t.store[l]? = some q ∧ q.bin = p.bin := by
  obtain ⟨least?, reg, hleast, -, hle, ht, -⟩ := h.turned
  obtain ⟨hl, hd⟩ := h.ready.lists.getElem?_of_mem (List.mem_of_getElem? hj)
  obtain ⟨p, hp, hslot⟩ := Store.exists_of_slots_eq h.slots hl
  have hmem : r.rank.store.particle l ∈ r.rank.activeParticles :=
    List.mem_map_of_mem (List.mem_of_getElem? hj)
  rw [hleast, faults_allotted, activeParticles, Store.gather_eq, List.map_map,
    List.getElem?_map, hj, Option.map_some, Option.some.injEq] at hfault
  have hbin := (Criterion.bin_place_of_isFault (n := n) hm (hle _ hmem) hfault
    r.rank.registry.isActive).trans (congrArg Slot.bin hslot).symm
  have hturn := congrArg Slot.bin (slot_turnTo (n := n) true u.kicker r.rank.instant.factors
    r.rank.registry.isActive (fun p => least?.getD (r.rank.wish u r.allotment.most p).ticks)
    (r.rank.store.particle l))
  refine ⟨p, _, hp, ?_, hturn.trans hbin⟩
  rw [ht]
  show (r.rank.store.map _)[l]? = some _
  rw [Array.getElem?_map, hl, Option.map_some, if_pos hd]

end Tallied

theorem Tallied.isWithin [Scalar.Ordered α] {r : Tally α u.bins} {t : Stepper α u.bins}
    (h : Tallied u s r t) (hu : u.IsMade) (hs : MeshStep.IsWithin u.timebase s.mesh.step) :
    MeshStep.IsWithin u.timebase r.allotment.most := by
  by_cases hm : r.rank.currentAbsolute u = r.rank.mesh.stop
  · obtain ⟨stats, hstats⟩ := h.isFor.renewed hm
    exact MeshStep.isWithin_of_ticksOf hu hstats
  · rw [h.isFor.kept hm, h.ready.mesh]
    exact hs

theorem untilFaults_apply (s : Stepper α u.bins) (hp : s.phase ≠ .aborted) (hf : ¬ isFinished u s) :
    untilFaults u forces s = tally u forces s := by
  rw [untilFaults, get_bind_apply]
  simp only [if_neg hp, if_neg hf]

theorem always_untilFaults (hn : 2 ≤ u.bins) (hf : Forces.KeepSlots forces) :
    (untilFaults u forces).Always (fun _ _ => True) s fun r t =>
      s.phase ≠ .aborted ∧ ¬ isFinished u s ∧ Tallied u s r t := by
  by_cases hp : s.phase = .aborted
  · rw [Act.Always, untilFaults, get_bind_apply]
    simp only [if_pos hp]
    exact trivial
  by_cases hfin : isFinished u s
  · rw [Act.Always, untilFaults, get_bind_apply]
    simp only [if_neg hp, if_pos hfin]
    exact trivial
  rw [Act.Always, untilFaults_apply s hp hfin]
  exact (always_tally hn (fun _ _ => trivial) hf).mono (fun _ _ h => ⟨hp, hfin, h⟩)
    fun _ _ _ => trivial

/-- Ranks at one tick that come to the sum of the faults have agreed on the steps that they give. -/
theorem joint_tally {w : Ranks m (Option SnapshotWriter)} {forces : Ranks m (Option (Forces α))}
    (hn : 2 ≤ n) (hf : Forces.KeepSchedule forces) {now : Tick} {mesh : MeshStep}
    {s : Ranks m (Stepper α n)} (hnow : ∀ i, (s i).current = now) (hmesh : ∀ i, (s i).mesh = mesh)
    (htb : u.timebase ≠ 0) :
    Joint (fun _ => True) (fun _ => True) (fun i => tally { u with writer := w i } (forces i)) s
      fun r t => (∀ i, (r i).rank.Ready u (r i).lead.1 mesh ∧ (r i).allotment.IsFor u (r i).rank ∧
        (t i).current = (r i).lead.1 ∧ (t i).mesh = mesh) ∧
        ∃ most, ∀ i, (r i).allotment = (r i).rank.allotted u most
          (commonWish u (fun i => (r i).rank) most) := by
  simp only [tally]
  apply Joint.bind (joint_lead hf hnow hmesh htb rfl)
  rintro e s₁ ⟨-, hnext, h₁⟩
  apply Joint.get_bind
  have hi (i : Fin (m + 1)) : (s₁ i).instant = (s₁ 0).instant :=
    Except.ok.inj ((h₁ i).1.instant.symm.trans (h₁ 0).1.instant)
  apply Joint.bind (joint_choose (fun i => (h₁ i).1) hi)
  rintro _ t ⟨ht, hfor, most, rfl⟩
  rw [ht]
  simp only [turns_allotted]
  apply Joint.bind (Q := fun _ t => ∀ i, (t i).current = (s₁ i).current ∧ (t i).mesh = (s₁ i).mesh)
  · refine Joint.of_ends (R := fun i _ t => t.current = (s₁ i).current ∧ t.mesh = (s₁ i).mesh)
      (fun i => (ends_turnAll ((h₁ i).1.withWriter (w i)) hn true _).mono ?_ fun _ _ => trivial)
      fun _ _ h => h
    rintro moved t ⟨-, reg, rfl, -⟩
    exact ⟨rfl, rfl⟩
  · intro moved t ht
    refine Joint.pure ⟨fun i => ?_, most, fun _ => rfl⟩
    rw [(ht i).1, (ht i).2, hnext i]
    exact ⟨(h₁ i).1, hfor i, (h₁ i).1.current, (h₁ i).1.mesh⟩

theorem always_runCycle [Scalar.Ordered α] (hu : u.IsMade) (hf : Forces.KeepSlots forces)
    (hs : MeshStep.IsWithin u.timebase s.mesh.step) :
    (runCycle u forces).Always (fun _ _ => True) s fun _ s' =>
      MeshStep.IsWithin u.timebase s'.mesh.step := by
  have hturn : (turnover u forces).Always (fun _ _ => True) s fun _ s' =>
      MeshStep.IsWithin u.timebase s'.mesh.step := by
    rw [turnover_eq]
    apply Act.always_bind.2
    apply (always_tally hu.two_le (fun _ _ => trivial) hf).mono ?_ fun _ _ _ => trivial
    intro r t ht
    have hmost := ht.isWithin hu hs
    apply Act.always_bind.2
    refine always_sumUp (fun _ => ⟨hmost.1, ht.mesh_after.symm⟩) (Act.always_pure.2 ?_)
      fun _ _ => trivial
    show MeshStep.IsWithin _ (if _ then _ else _ : MeshStep).step
    split
    · exact hmost
    · rw [ht.mesh_after, ht.ready.mesh]
      exact hs
  apply always_runCycle_of_open trivial trivial
  refine Act.always_bind.2 (Act.always_onFault.2 (hturn.mono ?_ fun _ _ _ => trivial))
  intro e s' hs'
  exact Act.always_bind.2 (Act.always_get.2
    (Act.always_bind.2 (Act.always_set.2 (Act.always_pure.2 hs'))))

end Reach

/-- A rank that a cycle has ended by a number of faults on all ranks, with what it was before. -/
structure Aborted (s : Stepper α n) (tick : Tick) (faults : Int) (s' : Stepper α n) : Prop where
  phase : s'.phase = .aborted
  cycle : s'.cycle = s.cycle
  rows : s'.rows = s.rows
  /-- The snapshot counts its own particles. -/
  shot : ∃ shot : Snapshot α, s'.shots = s.shots ++ [(999999, shot)] ∧ shot.id = 999999 ∧
    shot.faultCount = faults ∧ shot.tick = tick ∧ shot.meshStart = s.mesh.start ∧
    shot.meshStep = s.mesh.step ∧ shot.particles = s'.store ∧
    shot.binCount = List.ofFn fun b : Fin n => Registry.countIn shot.particles b.val

end Stepper

namespace Fleet

variable {f : Fleet α m} {store : Ranks m (Store α)} {k : Nat}
  {s t : Ranks m (Stepper α f.setup.bins)} {r : Ranks m (Stepper.Tally α f.setup.bins)}

omit [Scalar α] in
theorem isMade_on (hu : f.setup.IsMade) (i : Fin (m + 1)) : (f.on i).IsMade :=
  ⟨hu.two_le, hu.le_most, hu.timebase_eq⟩

theorem isWithin_of_after? [Scalar.Ordered α] (hu : f.setup.IsMade)
    (hf : ∀ k i, Forces.KeepSlots (f.forces k i)) (h : f.after? store k = some s)
    (i : Fin (m + 1)) :
    MeshStep.IsWithin f.setup.timebase (s i).mesh.step := by
  induction k generalizing s i with
  | zero =>
    rw [(isFirst_of_after? h i).mesh]
    exact ⟨.inl rfl, Int.le_of_lt hu.timebase_pos⟩
  | succ k ih =>
    obtain ⟨t, ht, hs⟩ := after?_succ.1 h
    obtain ⟨b, hb⟩ := Ranks.exists_finish_of_states? hs
    have hkeep (i : Fin (m + 1)) : (f.cycle k i).Always (fun _ _ => True) (t i) fun _ s' =>
        MeshStep.IsWithin f.setup.timebase s'.mesh.step :=
      Stepper.always_runCycle (u := f.on i) (isMade_on hu i) (hf k i) (ih ht i)
    exact hb.of_always hkeep i

section Finish

variable (hp : ∀ i, (s i).phase ≠ .aborted) (hfin : ∀ i, ¬ Stepper.isFinished (f.on i) (s i))
  (hr : Ranks.Finish (fun i => Stepper.tally (f.on i) (f.forces k i)) s (fun i => .ok (r i)) t)

include hp hfin hr

theorem finish_cycle_of_ne {all : Int}
    (hall : all = Ranks.total fun i => ((r i).allotment.faultCount : Int)) (hne : all ≠ 0) :
    Ranks.Finish (f.cycle k) s (fun _ => .error (.degenerateSteps all))
      fun i => (t i).aborted all := by
  have hturn : Ranks.Finish (fun i => Stepper.turnover (f.on i) (f.forces k i)) s
      (fun _ => .error (.degenerateSteps all)) fun i => (t i).aborted all := by
    simp only [Stepper.turnover_eq]
    refine hr.bind (Ranks.Finish.bind_error ?_ _)
    apply (Ranks.finish_faultCount hall.symm t).bind
    exact Ranks.finish_of_does fun i => Stepper.does_conclude_of_ne hne (t i)
  exact finish_cycle_of_error hp hfin hturn

theorem finish_cycle_of_eq
    (hrenewed : ∀ i, (r i).rank.currentAbsolute f.setup == (r i).rank.mesh.stop →
      TickCount.IsStep (r i).allotment.most ∧ (r i).rank.currentAbsolute f.setup = (t i).mesh.stop)
    (hall : (Ranks.total fun i => ((r i).allotment.faultCount : Int)) = 0) :
    ∃ (b : Ranks m (Report α)) (s' : Ranks m (Stepper α f.setup.bins)),
      Ranks.Finish (f.cycle k) s (fun i => .ok (b i)) s' ∧ ∀ i, ∃ rows cycle, s' i =
        { (t i).concluded f.setup true ((r i).rank.currentAbsolute f.setup == (r i).rank.mesh.stop)
            (r i).allotment.most with
          rows := rows
          cycle := cycle } := by
  have hsum : Ranks.Finish (fun i => Stepper.sumUp (f.on i) true (r i).rank (r i).allotment) t
      (fun _ => .ok ()) fun i => (t i).concluded (f.on i) true
        ((r i).rank.currentAbsolute (f.on i) == (r i).rank.mesh.stop) (r i).allotment.most :=
    (Ranks.finish_faultCount hall t).bind
      (Ranks.finish_of_does fun i => Stepper.does_conclude (hrenewed i))
  have hturn : Ranks.Finish (fun i => Stepper.turnover (f.on i) (f.forces k i)) s
      (fun i => .ok (r i).lead) fun i => (t i).concluded (f.on i) true
        ((r i).rank.currentAbsolute (f.on i) == (r i).rank.mesh.stop) (r i).allotment.most := by
    simp only [Stepper.turnover_eq]
    exact hr.bind (hsum.bind (Ranks.finish_of_does fun i => Act.does_pure.2 ⟨rfl, rfl⟩))
  exact ⟨_, _, finish_cycle_of_ok hp hfin hturn, fun _ => ⟨_, _, rfl⟩⟩

end Finish

/-- Ranks that complete a cycle have come to the sum of their faults, which is none, and have
concluded the cycle from there. -/
theorem exists_tally {now : Tick} {mesh : MeshStep} {s' : Ranks m (Stepper α f.setup.bins)}
    (h : InStep f.setup now mesh s) (hu : f.setup.IsMade) (hf : Forces.KeepSchedule (f.forces k))
    (hs : Ranks.states? (f.cycle k) s = some s') :
    ∃ (r : Ranks m (Stepper.Tally α f.setup.bins)) (t : Ranks m (Stepper α f.setup.bins)),
      Ranks.Finish (fun i => Stepper.tally (f.on i) (f.forces k i)) s (fun i => .ok (r i)) t ∧
      ∀ i, (t i).current = (s' i).current ∧ (t i).mesh = mesh ∧
        ((t i).currentAbsolute f.setup = mesh.stop → (s' i).store = (t i).store.map
          (Stepper.meshKick true f.setup.kicker mesh (s' i).mesh.step)) := by
  have hfin := h.not_isFinished hs
  have hlost {i : Fin (m + 1)} {e : Fault} :
      ¬ Ranks.Fails (fun i => Stepper.turnover (f.on i) (f.forces k i)) s i e :=
    not_fails_turnover h.phase hfin hs
  simp only [Stepper.turnover_eq] at hlost
  rcases (Stepper.joint_tally (w := f.writer) hu.two_le hf h.current h.mesh
    (Int.ne_of_gt hu.timebase_pos)).finish_or_fails with ⟨r, t, ht, hr, -⟩ | ⟨i, e, hfails⟩
  · obtain ⟨b, hs'⟩ := Ranks.exists_finish_of_states? hs
    have hat (i : Fin (m + 1)) :
        (r i).rank.currentAbsolute f.setup = (t i).currentAbsolute f.setup := by
      rw [Stepper.currentAbsolute, Stepper.currentAbsolute, (hr i).1.current, (hr i).2.2.1]
    have hrenewed (i : Fin (m + 1))
        (hm : (r i).rank.currentAbsolute f.setup == (r i).rank.mesh.stop) :
        TickCount.IsStep (r i).allotment.most ∧
          (r i).rank.currentAbsolute f.setup = (t i).mesh.stop := by
      obtain ⟨stats, hstats⟩ := (hr i).2.1.renewed (beq_iff_eq.1 hm)
      rw [(hr i).2.2.2, ← (hr i).1.mesh]
      exact ⟨MeshStep.isStep_of_ticksOf hstats, beq_iff_eq.1 hm⟩
    by_cases hall : (Ranks.total fun i => ((r i).allotment.faultCount : Int)) = 0
    · obtain ⟨b', s'', hs'', hends⟩ := finish_cycle_of_eq h.phase hfin ht hrenewed hall
      obtain ⟨-, rfl⟩ := hs'.unique hs''
      refine ⟨r, t, ht, fun i => ?_⟩
      obtain ⟨rows, cycle, hi⟩ := hends i
      rw [hi]
      refine ⟨rfl, (hr i).2.2.2, fun hm => ?_⟩
      rw [hat i, (hr i).1.mesh, hm, beq_self_eq_true]
      show (t i).store.map (Stepper.meshKick true _ (t i).mesh _) = _
      rw [(hr i).2.2.2]
      rfl
    · cases congrFun (hs'.unique (finish_cycle_of_ne h.phase hfin ht rfl hall)).1 0
  · exact absurd (hfails.bind _) hlost

/-- Ranks that come to the sum of the faults have counted the active particles for which the
criterion or the assignment of bins finds no usable step; these are in the bins that they had before
the cycle. Equal steps are the least that any active particle of any rank asks for. Without a fault
the cycle ends and no snapshot is kept. With faults on any rank all ranks keep one snapshot with
their number, and fail by it; no cycle runs after that. -/
theorem faults_end_run [Scalar.WholeOrdered α] (hu : f.setup.IsMade)
    (hf : ∀ k i, Forces.KeepSlots (f.forces k i)) (h : f.after? store k = some s)
    (hr : Ranks.Finish (fun i => Stepper.untilFaults (f.on i) (f.forces k i)) s
      (fun i => .ok (r i)) t)
    {all : Int} (hall : all = Ranks.total fun i => ((r i).allotment.faultCount : Int)) :
    (∀ i, Stepper.Tallied (f.on i) (s i) (r i) (t i) ∧
      (∃ least? : Option Int, (¬ f.setup.config.step.equalSteps → least? = none) ∧
        (r i).allotment.faults = (r i).rank.activeParticles.map fun p =>
          ((r i).rank.wish f.setup (r i).allotment.most p).isFault ||
            Assign.isFault (TickCount.roundDown
              (least?.getD ((r i).rank.wish f.setup (r i).allotment.most p).ticks))) ∧
      ∀ j l : Nat, (r i).rank.active[j]? = some l → (r i).allotment.faults[j]? = some true →
        ∃ p q : Particle α, (s i).store[l]? = some p ∧ (t i).store[l]? = some q ∧
          q.bin = p.bin) ∧
    (f.KeepsSchedule → ∃ most, ∀ i, (r i).allotment = (r i).rank.allotted f.setup most
      (Stepper.commonWish f.setup (fun i => (r i).rank) most)) ∧
    (all = 0 → ∃ (b : Ranks m (Report α)) (s' : Ranks m (Stepper α f.setup.bins)),
      Ranks.Finish (f.cycle k) s (fun i => .ok (b i)) s' ∧ ∀ i, (s' i).shots = (s i).shots) ∧
    (all ≠ 0 → ∃ s' : Ranks m (Stepper α f.setup.bins),
      Ranks.Finish (f.cycle k) s (fun _ => .error (.degenerateSteps all)) s' ∧ ∀ i,
        (s' i).store = (t i).store ∧ (s i).Aborted (r i).lead.1 all (s' i) ∧
        ∀ forces, (Stepper.runCycle (f.on i) forces).Does (s' i) (.error .runAborted) (s' i)) := by
  have hopen (i : Fin (m + 1)) :
      (Stepper.untilFaults (f.on i) (f.forces k i)).Always (fun _ _ => True) (s i)
      fun r t => (s i).phase ≠ .aborted ∧ ¬ Stepper.isFinished (f.on i) (s i) ∧
        Stepper.Tallied (f.on i) (s i) r t :=
    Stepper.always_untilFaults (u := f.on i) hu.two_le (hf k i)
  have htallied := hr.of_always hopen
  have hwithin := isWithin_of_after? hu hf h
  have htally : Ranks.Finish (fun i => Stepper.tally (f.on i) (f.forces k i)) s
      (fun i => .ok (r i)) t :=
    hr.congr fun i => (Stepper.untilFaults_apply (u := f.on i) (s i) (htallied i).1
      (htallied i).2.1).symm
  refine ⟨fun i => ?_, fun hkeeps => ?_, fun hzero => ?_, fun hne => ?_⟩
  · obtain ⟨-, -, hi⟩ := htallied i
    have hmost := (hi.isWithin (isMade_on hu i) (hwithin i)).2
    change _ ≤ f.setup.timebase at hmost
    rw [← hu.timebase_eq] at hmost
    exact ⟨hi, hi.exists_faults, fun j l => hi.bin_of_fault hmost⟩
  · obtain ⟨now, mesh, hin⟩ := exists_inStep hu hkeeps h
    exact (Stepper.joint_tally hu.two_le (hkeeps k) hin.current hin.mesh
      (Int.ne_of_gt hu.timebase_pos)).of_finish htally |>.2
  · obtain ⟨b, s', hs', hends⟩ := finish_cycle_of_eq (fun i => (htallied i).1)
      (fun i => (htallied i).2.1) htally (fun i => (htallied i).2.2.renewed) (hall.symm.trans hzero)
    refine ⟨b, s', hs', fun i => ?_⟩
    obtain ⟨rows, cycle, hi⟩ := hends i
    rw [hi]
    exact congrArg (·.2.2.2) (htallied i).2.2.log_after
  · refine ⟨_, finish_cycle_of_ne (fun i => (htallied i).1) (fun i => (htallied i).2.1) htally hall
      hne, fun i => ⟨rfl, ?_, fun forces => Stepper.does_runCycle_of_aborted (f.on i) forces rfl⟩⟩
    obtain ⟨-, -, hi⟩ := htallied i
    have hready := hi.ready_after
    have hlog := hi.log_after
    have hmesh : (t i).mesh = (s i).mesh := congrArg (·.1) hlog
    have hshots : (t i).shots = (s i).shots := congrArg (·.2.2.2) hlog
    refine ⟨rfl, congrArg (·.2.1) hlog, congrArg (·.2.2.1) hlog,
      (t i).snapshot all Event.emergencyId, ?_, rfl, rfl, hready.current,
      congrArg MeshStep.start hmesh, congrArg MeshStep.step hmesh, rfl, ?_⟩
    · rw [← hshots]
      rfl
    · show (t i).registry.count.toList = _
      rw [hready.counts.total, Vector.toList_ofFn]
      rfl

end Fleet

namespace Sample

def fastStore : Ranks 1 (Store Rat)
  | 0 => #[{ particle 0 with vel := ⟨1000, 0, 0⟩ }, particle 1]
  | 1 => #[particle 2]

def untilFaults : Ranks 1 (Stepper.Step Rat fleet.setup.bins
    (Stepper.Tally Rat fleet.setup.bins)) :=
  fun i => Stepper.untilFaults (fleet.on i) none

def found? : Option Int :=
  (fleet.after? fastStore 0).bind fun s => (Ranks.outcomes? untilFaults s).map fun o =>
    Ranks.total fun i => match (o i).result with
      | .ok r => r.allotment.faultCount
      | .error _ => 0

end Sample

theorem Fleet.faults_end_run_sample : ∃ (s : Ranks 1 (Stepper Rat Sample.fleet.setup.bins))
    (tick : Ranks 1 Tick) (s' : Ranks 1 (Stepper Rat Sample.fleet.setup.bins)),
    Sample.fleet.after? Sample.fastStore 0 = some s ∧
    Ranks.Finish (Sample.fleet.cycle 0) s (fun _ => .error (.degenerateSteps 3)) s' ∧
    ∀ i, (s i).Aborted (tick i) 3 (s' i) := by
  have hsome : ((Sample.fleet.after? Sample.fastStore 0).bind
      (Ranks.states? Sample.untilFaults)).isSome := by decide +kernel
  have hfound : Sample.found? = some 3 := by decide +kernel
  obtain ⟨t, ht⟩ := Option.isSome_iff_exists.1 hsome
  obtain ⟨s, h, hs⟩ := Option.bind_eq_some_iff.1 ht
  obtain ⟨r, hr⟩ := Ranks.exists_finish_of_states? hs
  have hall : (3 : Int) = Ranks.total fun i => ((r i).allotment.faultCount : Int) := by
    obtain ⟨o, ho, hor⟩ := hr
    rw [Sample.found?, h, Option.bind_some, ho, Option.map_some] at hfound
    simp only [(hor _).1] at hfound
    exact (Option.some.inj hfound).symm
  obtain ⟨-, -, -, habort⟩ := faults_end_run Sample.isMade
    (fun _ _ => Forces.keepSlots_none) h hr hall
  obtain ⟨s', hs', hi⟩ := habort (by decide)
  exact ⟨s, fun i => (r i).lead.1, s', h, hs', fun i => (hi i).2.1⟩

end BlockStep

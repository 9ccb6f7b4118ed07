import BlockStep.Proofs.Abort
import BlockStep.Proofs.Alone
import BlockStep.Proofs.Rational

namespace BlockStep

variable {α : Type} [Scalar α] {n : Nat}

def Forces.KeepBooks (forces : Option (Forces α)) : Prop :=
  ∀ k active tick store, (Forces.act forces k active tick).Always
    (fun e _ => e.degenerate? = none) store fun _ store' => store'.slots = store.slots

theorem Forces.keepBooks_none : Forces.KeepBooks (none : Option (Forces α)) :=
  fun _ _ _ _ => Act.always_pure.2 rfl

namespace Registry.Counts

variable {r : Registry n} {store : Store α}

omit [Scalar α] in
theorem lt_nextSync (h : r.Counts store) {current : Tick} {timebase : Int}
    (hl : current.localTick < timebase) (hf : ∀ p ∈ store, 1 ≤ p.bin ∧ p.bin < n) :
    current.toAbsolute timebase < (r.nextSync current timebase).toAbsolute timebase := by
  have hbins (p : Particle α) (hp : p ∈ store) : 0 ≤ p.bin ∧ p.bin < n :=
    ⟨Int.le_trans (by decide) (hf p hp).1, (hf p hp).2⟩
  rcases (h.isLeast_nextSync hl hbins).1 with he | ⟨p, hp, he⟩
  · rw [he, Int.add_mul, Int.one_mul, Tick.toAbsolute]
    omega
  · have hpos : p.slot.bin ≠ 0 := by
      have hp' : 1 ≤ p.slot.bin := (hf p hp).1
      omega
    have hlt := lt_nextMultiple current.localTick (Int.natCast_pos.2 (pow2_pos p.slot.bin.toNat))
    rw [he, Slot.dueTick, if_neg hpos, Tick.toAbsolute]
    omega

end Registry.Counts

namespace Stepper

variable {u : Setup α} {s t : Stepper α u.bins} {r : Tally α u.bins}

/-- Without faults all particles come into bins above 0, if they have been there or bin 1 is due. -/
theorem Tallied.one_le_bin (h : Tallied u s r t) (hn : 2 ≤ u.bins)
    (hzero : r.allotment.faultCount = 0)
    (hm : ∀ p ∈ r.rank.store, 1 ≤ p.bin ∨ r.rank.registry.isActive 1) :
    ∀ p ∈ t.store, 1 ≤ p.bin := by
  obtain ⟨least?, _, hleast, -, -, rfl, -⟩ := h.turned
  rw [hleast, h.ready.faultCount_allotted, Array.countP_eq_zero] at hzero
  intro q hq
  obtain ⟨p, hp, rfl⟩ := Array.mem_map.1 hq
  have h0 := (h.ready.fits p hp).1
  by_cases hd : r.rank.registry.isDue p
  · have hno := hzero p hp
    simp only [hd, Bool.true_and, Assign.isFault, Bool.or_eq_true, decide_eq_true_eq] at hno
    have hwant :
        1 < TickCount.roundDown (least?.getD (r.rank.wish u r.allotment.most p).ticks) := by
      omega
    obtain ⟨b, hb, -, -, -, -, hpos⟩ :=
      Assign.place_spec (f := r.rank.registry.isActive) hn hwant h0
    have hslot := slot_turnTo (n := u.bins) true u.kicker r.rank.instant.factors
      r.rank.registry.isActive (fun p => least?.getD (r.rank.wish u r.allotment.most p).ticks) p
    have hbin := (congrArg Slot.bin hslot).trans hb
    rw [if_pos hd]
    exact Int.le_trans (Int.ofNat_le.2 (hpos (hm p hp))) (Int.le_of_eq hbin.symm)
  · rw [if_neg hd]
    have hne : p.bin ≠ 0 := by
      intro hbin
      apply hd
      rw [Registry.isDue, Registry.isActive, hbin, h.ready.marked]
      exact Registry.getD_dueMask.2 ⟨Nat.lt_of_lt_of_le (by decide) hn, .inl rfl⟩
    omega

structure Balanced (u : Setup α) (s : Stepper α u.bins) : Prop where
  counts : s.registry.Counts s.store
  fits : ∀ p ∈ s.store, p.Fits u.bins
  cycle : s.cycle = s.rows.length
  numbered : ∀ (k : Nat) (row : Row α), s.rows[k]? = some row → row.report.cycle = k
  ascending : s.rows.Pairwise fun row row' => row.absoluteTick < row'.absoluteTick

/-- A rank with balanced books that has not been aborted. Once it has completed a cycle no particle
is in bin 0. -/
structure Open (u : Setup α) (s : Stepper α u.bins) : Prop extends Balanced u s where
  lt_timebase : s.current.localTick < u.timebase
  reached : ∀ row ∈ s.rows, row.absoluteTick ≤ s.currentAbsolute u
  moving : (∀ p ∈ s.store, 1 ≤ p.bin) ∨ s.current = ⟨0, 0⟩ ∧ s.rows = []
  shots : s.shots = []

def dueNext (u : Setup α) (s : Stepper α n) : Int :=
  (s.registry.nextSync s.current u.timebase).toAbsolute u.timebase

theorem alone_synchronize (s : Stepper α n) : (synchronize u).Alone (fun _ _ => True) s
    fun r _ => r.1 = Tick.ofAbsolute (dueNext u s) u.timebase := by
  have harrive (s : Stepper α n) (next : Tick) : (arrive u s next).Alone (fun _ _ => True) s
      fun r _ => r.1 = next := by
    by_cases h : next.toAbsolute u.timebase < currentAbsolute u s
    · exact (does_arrive_of_lt h).alone_error.2 trivial
    · have hends := ends_arrive (u := u) (Int.not_lt.1 h)
      exact hends.always.alone.mono (fun _ _ hr => hr.1) fun _ _ _ => trivial
  simp only [synchronize_eq, agree, bind_assoc, pure_bind]
  refine Act.alone_bind.2 (Act.alone_modify.2 (Act.alone_bind.2 (Act.alone_get.2 ?_)))
  refine Act.alone_bind.2 (Act.alone_bind.2 (Act.alone_reduce.2 ?_))
  by_cases h : u.timebase = 0
  · simp only [Tick.ofAbsolute?, if_pos h]
    exact (Act.does_fail.2 ⟨rfl, rfl⟩).alone_error.2 trivial
  · simp only [Tick.ofAbsolute?, if_neg h, Act.alone_bind, Act.alone_tell, Act.alone_pure]
    exact harrive _ _

theorem alone_tally (forces : Option (Forces α)) (s : Stepper α n) :
    (tally u forces).Alone (fun _ _ => True) s
      fun r _ => r.lead.1 = Tick.ofAbsolute (dueNext u s) u.timebase := by
  rw [tally, lead, bind_assoc]
  refine Act.alone_bind.2 ((alone_synchronize s).mono (fun r t hr => ?_) fun _ _ _ => trivial)
  have hrest {β γ : Type} (x : Step α n β) (f : β → Step α n γ) (s : Stepper α n) (R : γ → Prop)
      (hf : ∀ b t, (f b).Always (fun _ _ => True) t fun c _ => R c) :
      (x >>= f).Always (fun _ _ => True) s fun c _ => R c :=
    Act.always_bind.2 ((Act.always_true x s).mono (fun b t _ => hf b t) fun _ _ _ => trivial)
  refine Act.Always.alone ?_
  rw [bind_assoc]
  refine hrest _ _ _ (fun r : Tally α n => r.lead.1 = _) fun active t => ?_
  rw [pure_bind]
  refine hrest _ _ _ _ fun s t => hrest _ _ _ _ fun a t => hrest _ _ _ _ fun moved t => ?_
  exact Act.always_pure.2 hr

omit [Scalar α] in
theorem Balanced.total (h : s.Balanced u) : s.registry.total = s.store.size :=
  h.counts.total_eq h.fits

theorem Balanced.tallied (h : s.Balanced u) (ht : Tallied u s r t) : t.Balanced u := by
  have hcycle : t.cycle = s.cycle := congrArg (·.2.1) ht.log_after
  have hrows : t.rows = s.rows := congrArg (·.2.2.1) ht.log_after
  refine ⟨ht.ready_after.counts, ht.ready_after.fits, ?_, ?_, ?_⟩
  · rw [hcycle, hrows]
    exact h.cycle
  · rw [hrows]
    exact h.numbered
  · rw [hrows]
    exact h.ascending

omit [Scalar α] in
/-- Books stay balanced with the row of a cycle at a tick behind all rows. -/
theorem Balanced.append (h : t.Balanced u) {row : Row α} (hcycle : row.report.cycle = t.cycle)
    (hbehind : ∀ row' ∈ t.rows, row'.absoluteTick < row.absoluteTick) {phase : Phase}
    {mesh : MeshStep} {st : Store α} (hst : st.slots = t.store.slots) :
    Balanced u { t with
      phase := phase
      mesh := mesh
      store := st
      rows := t.rows ++ [row]
      cycle := t.cycle + 1 } := by
  refine ⟨h.counts.of_slots hst, Store.fits_of_slots hst h.fits, ?_, fun k row' hk => ?_, ?_⟩
  · show t.cycle + 1 = (t.rows ++ [row]).length
    rw [h.cycle, List.length_append, List.length_singleton]
  · change (t.rows ++ [row])[k]? = some row' at hk
    rw [List.getElem?_append] at hk
    split at hk
    · exact h.numbered k row' hk
    next hge =>
      obtain ⟨hlt, rfl⟩ := List.getElem?_eq_some_iff.1 hk
      have hlength := h.cycle
      rw [List.length_singleton] at hlt
      rw [List.getElem_singleton, hcycle]
      omega
  · refine List.pairwise_append.2 ⟨h.ascending, List.pairwise_singleton _ _, ?_⟩
    intro row' hrow' row'' hrow''
    rw [List.mem_singleton.1 hrow'']
    exact hbehind row' hrow'

namespace Open

omit [Scalar α] in
theorem lt_dueNext (h : s.Open u) : ∀ row ∈ s.rows, row.absoluteTick < dueNext u s := by
  intro row hrow
  rcases h.moving with hpos | ⟨-, hnone⟩
  · have hbins (p : Particle α) (hp : p ∈ s.store) : 1 ≤ p.bin ∧ p.bin < u.bins :=
      ⟨hpos p hp, (h.fits p hp).2.1⟩
    exact Int.lt_of_le_of_lt (h.reached row hrow) (h.counts.lt_nextSync h.lt_timebase hbins)
  · rw [hnone] at hrow
    exact absurd hrow List.not_mem_nil

omit [Scalar α] in
theorem isActive_one (h : s.Open u) (hu : u.IsMade) {r : Registry u.bins}
    (hr : r.active =
      Registry.dueMask u.bins (Tick.ofAbsolute (dueNext u s) u.timebase).localTick) :
    ∀ p ∈ s.store, 1 ≤ p.bin ∨ r.isActive 1 := by
  intro p hp
  rcases h.moving with hpos | ⟨hfirst, -⟩
  · exact .inl (hpos p hp)
  have hfit := h.fits p hp
  by_cases hp1 : 1 ≤ p.bin
  · exact .inl hp1
  have hzero : p.bin = 0 := by
    have := hfit.1
    omega
  have hbins (p : Particle α) (hp : p ∈ s.store) : 0 ≤ p.bin ∧ p.bin < u.bins :=
    ⟨(h.fits p hp).1, (h.fits p hp).2.1⟩
  have hdue : dueNext u s = 0 := by
    have hleast := (h.counts.isLeast_nextSync h.lt_timebase hbins).unique
      (Registry.Counts.isLeast_current h.lt_timebase hp hzero)
    rw [dueNext, hleast, hfirst, Tick.toAbsolute_zero]
  rw [Registry.isActive, hr]
  refine .inr (Registry.getD_dueMask.2 ⟨hu.two_le, .inr ?_⟩)
  rw [hdue, Tick.ofAbsolute, Int.zero_fmod]
  exact Int.dvd_zero _

/-- A cycle without faults leaves a rank with one more row, at its tick. -/
theorem completed (h : s.Open u) (hu : u.IsMade) (ht : Tallied u s r t)
    (hzero : r.allotment.faultCount = 0)
    (hr : r.lead.1 = Tick.ofAbsolute (dueNext u s) u.timebase) {row : Row α}
    (hcycle : row.report.cycle = t.cycle)
    (htick : row.absoluteTick = r.lead.1.toAbsolute u.timebase)
    {phase : Phase} {mesh : MeshStep} {st : Store α} (hst : st.slots = t.store.slots) :
    Open u { t with
      phase := phase
      mesh := mesh
      store := st
      rows := t.rows ++ [row]
      cycle := t.cycle + 1 } := by
  have hb := h.toBalanced.tallied ht
  have hrows : t.rows = s.rows := congrArg (·.2.2.1) ht.log_after
  have hshots : t.shots = s.shots := congrArg (·.2.2.2) ht.log_after
  have hcurrent := ht.ready_after.current
  have hnow : dueNext u s = row.absoluteTick := by
    rw [htick, hr, Tick.toAbsolute_ofAbsolute]
  have hbehind : ∀ row' ∈ t.rows, row'.absoluteTick < row.absoluteTick := by
    rw [hrows, ← hnow]
    exact h.lt_dueNext
  have hmarked := ht.ready.marked
  rw [hr] at hmarked
  have hmoving := Store.forall_slot ht.slots
    (P := fun q => 1 ≤ q.bin ∨ r.rank.registry.isActive 1)
    fun p hp => h.isActive_one hu hmarked p hp
  have hpos := ht.one_le_bin hu.two_le hzero hmoving
  refine {
    toBalanced := hb.append hcycle hbehind hst
    lt_timebase := ?_
    reached := fun row' hrow' => ?_
    moving := .inl (Store.forall_slot hst (P := fun q => 1 ≤ q.bin) hpos)
    shots := hshots.trans h.shots }
  · show t.current.localTick < u.timebase
    rw [hcurrent, hr]
    exact Int.fmod_lt_of_pos _ hu.timebase_pos
  · change row'.absoluteTick ≤ t.current.toAbsolute u.timebase
    rw [hcurrent, ← htick]
    rcases List.mem_append.1 hrow' with hold | hnew
    · exact Int.le_of_lt (hbehind row' hold)
    · rw [List.mem_singleton.1 hnew]

end Open

/-- A rank that is made opens its books. -/
theorem Open.of_made? (hu : u.IsMade) {store : Store α} (h : made? u store = some s) :
    s.Open u ∧ s.rows = [] := by
  obtain ⟨hready, -, hrecords⟩ := ready_of_made? h
  have hcycle : s.cycle = 0 := congrArg (·.1) hrecords
  have hrows : s.rows = [] := congrArg (·.2.1) hrecords
  refine ⟨{
    counts := hready.counts
    fits := hready.fits
    cycle := by rw [hcycle, hrows, List.length_nil]
    numbered := fun k row hk => ?_
    ascending := by rw [hrows]; exact .nil
    lt_timebase := by rw [hready.current]; exact hu.timebase_pos
    reached := fun row hrow => ?_
    moving := .inr ⟨hready.current, hrows⟩
    shots := congrArg (·.2.2) hrecords }, hrows⟩
  · rw [hrows, List.getElem?_nil] at hk
    cases hk
  · rw [hrows] at hrow
    cases hrow

def Stopped (u : Setup α) (e : Fault) (s : Stepper α u.bins) : Prop :=
  e.degenerate? ≠ none → s.Balanced u ∧ ∃ shot, s.shots = [(Event.emergencyId, shot)]

section Run

variable {forces : Option (Forces α)} (hu : u.IsMade) (hf : Forces.KeepBooks forces)

include hu hf

/-- A cycle of a rank alone adds a row, or ends the run with the books as they were. -/
theorem Open.runCycle (h : s.Open u) : (runCycle u forces).Alone (Stopped u) s
    fun _ t => t.Open u ∧ t.rows.length = s.rows.length + 1 := by
  by_cases hp : s.phase = .aborted
  · exact (does_runCycle_of_aborted u forces hp).alone_error.2 fun he => absurd rfl he
  by_cases hfin : isFinished u s
  · exact (does_runCycle_of_finished forces hp hfin).alone_error.2 fun he => absurd rfl he
  rw [Act.Alone, runCycle_apply forces hp hfin]
  change (openCycle u forces).Alone _ s _
  rw [openCycle, Act.alone_bind, Act.alone_onFault, turnover_eq, Act.alone_bind]
  refine ((always_tally hu.two_le (fun _ he => he) hf).alone.and (alone_tally forces s)).mono ?_
    fun e _ he hne => absurd he.1 hne
  rintro r t ⟨ht, hr⟩
  have hrows : t.rows = s.rows := congrArg (·.2.2.1) ht.log_after
  have hshots : t.shots = s.shots := congrArg (·.2.2.2) ht.log_after
  refine Act.alone_bind.2 (Act.alone_bind.2 (Act.alone_reduce.2 ?_))
  by_cases hzero : r.allotment.faultCount = 0
  · rw [hzero]
    refine (does_conclude ht.renewed).alone_ok.2 ?_
    refine Act.alone_pure.2 (Act.alone_bind.2 (Act.alone_get.2 (Act.alone_bind.2 (Act.alone_set.2
      (Act.alone_pure.2 ⟨?_, ?_⟩)))))
    · exact h.completed hu ht hzero hr rfl rfl (slots_concluded ..)
    · show (t.rows ++ [_]).length = s.rows.length + 1
      rw [hrows, List.length_append, List.length_singleton]
  · have hne : (r.allotment.faultCount : Int) ≠ 0 := Int.natCast_ne_zero.2 hzero
    refine (does_conclude_of_ne hne t).alone_error.2 fun _ =>
      ⟨?_, t.snapshot r.allotment.faultCount Event.emergencyId, ?_⟩
    · have hb := h.toBalanced.tallied ht
      exact ⟨hb.counts, hb.fits, hb.cycle, hb.numbered, hb.ascending⟩
    · show t.shots ++ [_] = [_]
      rw [hshots, h.shots]
      rfl

/-- Cycles of a rank alone add a row each. -/
theorem Open.cycles (h : s.Open u) (k : Nat) : (cycles u forces k).Alone (Stopped u) s
    fun rs t => t.Open u ∧ t.rows.length = s.rows.length + rs.length := by
  induction k generalizing s with
  | zero => exact Act.alone_pure.2 ⟨h, rfl⟩
  | succ k ih =>
    rw [Stepper.cycles]
    refine Act.alone_bind.2 (Act.alone_get.2 ?_)
    split
    · exact Act.alone_bind.2 (Act.alone_tell.2 (Act.alone_pure.2 ⟨h, rfl⟩))
    refine Act.alone_bind.2 ((h.runCycle hu hf).mono ?_ fun _ _ he => he)
    rintro r t ⟨ht, hlength⟩
    refine Act.alone_bind.2 ((ih ht).mono ?_ fun _ _ he => he)
    rintro rs t' ⟨ht', hlength'⟩
    refine Act.alone_pure.2 ⟨ht', ?_⟩
    rw [hlength', hlength, List.length_cons]
    omega

theorem Open.run (h : s.Open u) (count : Int) : (run u forces count).Alone (Stopped u) s
    fun rs t => t.Open u ∧ t.rows.length = s.rows.length + rs.length :=
  Act.alone_bind.2 (Act.alone_get.2 (Act.alone_bind.2 (Act.alone_tell.2 (h.cycles hu hf _))))

end Run

end Stepper

namespace Sample

def thrown : Store Rat := #[{ particle 0 with meshAccel := ⟨1000, 0, 0⟩ }]

end Sample

example : ((Stepper.made? Sample.setup Sample.thrown).map fun s =>
    let o := (Stepper.run Sample.setup none 5 s).alone
    (o.result.isOk, o.state.cycle, o.state.rows.length, o.state.shots.map (·.1))) =
    some (false, 1, 1, [Event.emergencyId]) := by decide +kernel

end BlockStep

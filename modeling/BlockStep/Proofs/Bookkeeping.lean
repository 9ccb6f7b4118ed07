import BlockStep.Proofs.Abort
import BlockStep.Proofs.Together

namespace BlockStep

variable {α σ β γ : Type} [Scalar α] {m n : Nat}

/-- The scheduler has found its own state inconsistent. -/
def Fault.isCheck : Fault → Bool
  | .syncBackwards .. | .binRange .. | .negativeOccupancy | .totalMismatch .. | .kindSumMismatch
  | .kindTotalsMismatch .. | .meshBoundary .. | .meshStepLength _ => true
  | _ => false

namespace Fault

variable {e : Fault}

theorem not_isCheck_of_isNumeric (h : e.isNumeric) : ¬ e.isCheck := by
  cases e with
  | divisionByZero | realOverflow | powerNotReal | rootOfNegative | outOfRange =>
    exact Bool.false_ne_true
  | _ => cases h

theorem not_isCheck_of_isGap (h : e.isGap) : ¬ e.isCheck := by
  cases e with
  | kickGap id last start => exact Bool.false_ne_true
  | _ => cases h

theorem IsChoice.not_isCheck (h : e.IsChoice) : ¬ e.isCheck := by
  rcases h with h | rfl | rfl
  · exact not_isCheck_of_isNumeric h
  · exact Bool.false_ne_true
  · exact Bool.false_ne_true

end Fault

/-- The forces of a rank leave kinds, bins and starts of steps, and fail by no check of the
scheduler. -/
def Forces.LeaveSlots (forces : Option (Forces α)) : Prop :=
  ∀ k active tick store, (Forces.act forces k active tick).Always (fun e _ => ¬ e.isCheck) store
    fun _ store' => store'.slots = store.slots

theorem Forces.leaveSlots_none : Forces.LeaveSlots (none : Option (Forces α)) :=
  fun _ _ _ _ => Act.always_pure.2 rfl

/-- What ranks may do together once they are made. -/
inductive Operation where
  | synchronize
  | forces
  | advance (toMiddle : Bool)
  | halfKick
  | cycle

namespace Stepper

def operate (u : Setup α) (forces : Option (Forces α)) : Operation → Step α n Unit
  | .synchronize => do
    let _ ← synchronize u
    pure ()
  | .forces => do
    let s ← Act.get
    callForces forces s.current
  | .advance toMiddle => do
    let _ ← advance u toMiddle
    pure ()
  | .halfKick => halfKick u
  | .cycle => do
    let _ ← runCycle u forces
    pure ()

structure InOrder (u : Setup α) (now : Tick) (s : Stepper α n) : Prop where
  ready : s.Ready u now s.mesh
  phase : s.phase ≠ .aborted
  rows : ∀ r ∈ s.rows, r.report.due = r.report.active

variable {u : Setup α} {now next : Tick} {mesh : MeshStep} {s : Stepper α n}

theorem Ready.self (h : s.Ready u now mesh) : s.Ready u now s.mesh := by
  rwa [h.mesh]

theorem always_proceed_ready (hn : 2 ≤ n) (h : s.Ready u now s.mesh) (toMiddle : Bool) :
    (proceed u toMiddle).Always (fun e _ => ¬ e.isCheck) s fun _ s' =>
      s'.Ready u now s'.mesh ∧ s'.phase = .done ∧ s'.rows = s.rows := by
  rw [proceed]
  apply Act.always_bind.2
  apply Act.always_get.2
  apply Act.always_bind.2
  apply (always_choose h).mono ?_ fun _ _ => Fault.IsChoice.not_isCheck
  rintro a t ⟨rfl, ha⟩
  apply always_carryOut hn h ha
  case hok => exact fun _ _ _ hready => ⟨hready.concluded _ _ _, rfl, rfl⟩
  case hgap => exact fun _ _ he _ => Fault.not_isCheck_of_isGap he
  case herror => exact fun _ _ => Bool.false_ne_true

theorem InOrder.synced (h : s.InOrder u now) : InOrder u now { s with phase := .sync } :=
  ⟨h.ready.withRecords, Phase.noConfusion, h.rows⟩

theorem always_advance (hn : 2 ≤ n) (h : s.InOrder u now) (toMiddle : Bool) :
    (advance u toMiddle).Always (fun e _ => ¬ e.isCheck) s fun _ s' => s'.InOrder u now := by
  rw [advance_eq]
  apply Act.always_bind.2
  apply Act.always_modify.2
  have h₁ : Ready u now s.mesh { s with phase := .assign } := h.ready.withRecords
  apply Act.always_bind.2
  apply ((always_relax h₁).and (keeps_relax (g := Stepper.rows) (fun _ _ => rfl) _)).mono ?_
    fun _ _ he => Fault.not_isCheck_of_isNumeric he.1
  rintro _ t ⟨⟨ht, -⟩, hrows⟩
  apply (always_proceed_ready hn ht.self toMiddle).mono ?_ fun _ _ he => he
  rintro _ t' ⟨ht', hphase, hkept⟩
  refine ⟨ht', ?_, ?_⟩
  · rw [hphase]
    exact Phase.noConfusion
  · rw [hkept, hrows]
    exact h.rows

theorem always_halfKick_ready (h : s.InOrder u now) :
    (halfKick u).Always (fun e _ => ¬ e.isCheck) s fun _ s' => s'.InOrder u now := by
  have hr := h.ready
  rw [halfKick]
  apply Act.always_bind.2
  apply Act.always_get.2
  apply Act.always_within.2
  have hhalf := Kicker.ends_half (r := u.kicker) (t := s.instant.factors) hr.lists id s.mesh
  rw [Array.map_id] at hhalf
  apply hhalf.always.mono ?_ fun _ _ he => Fault.not_isCheck_of_isGap he.1
  rintro _ st hst
  have hslots : st.slots = s.store.slots := by
    rw [hst]
    refine (Store.slots_map _ ?_ _).trans (Store.slots_map _ ?_ _)
    · exact fun _ => rfl
    · intro p
      split
      · exact Kicker.slot_openOne p
      · rfl
  exact ⟨hr.withStore hslots, h.phase, h.rows⟩

theorem always_forces {forces : Option (Forces α)} (hf : Forces.LeaveSlots forces)
    (h : s.InOrder u now) : (callForces forces s.current).Always (fun e _ => ¬ e.isCheck) s
      fun _ s' => s'.InOrder u now := by
  have hkeeps := keeps_callForces (g := fun s : Stepper α n => (s.phase, s.rows))
    (fun _ _ _ => rfl) forces s.current s
  apply ((always_callForces s.current (hf _ _ _ _) (fun _ hst => hst) h.ready).and hkeeps).mono ?_
    fun _ _ he => he.1
  rintro _ t ⟨⟨ht, -⟩, hkept⟩
  have hphase : t.phase = s.phase := congrArg (·.1) hkept
  have hrows : t.rows = s.rows := congrArg (·.2) hkept
  refine ⟨ht.self, ?_, ?_⟩
  · rw [hphase]
    exact h.phase
  · rw [hrows]
    exact h.rows

theorem always_arrive_ready (h : s.InOrder u now)
    (hle : now.toAbsolute u.timebase ≤ next.toAbsolute u.timebase) :
    (arrive u s next).Always (fun e _ => e.isNumeric) s fun r s' => r.1 = next ∧
      s'.Ready u next s.mesh ∧ r.2 = s'.active.length ∧ s'.phase = s.phase ∧ s'.rows = s.rows := by
  have hahead : currentAbsolute u s ≤ next.toAbsolute u.timebase := by
    rwa [currentAbsolute, h.ready.current]
  apply (ends_arrive hahead).always.mono
  · rintro r t ⟨hr, ht, -, hdue, hphase, hrows⟩
    exact ⟨hr, ht, hdue h.ready.counts, hphase, hrows⟩
  · rintro e _ (he | ⟨-, -, hfits⟩)
    · exact Config.isNumeric_instant he
    · exact absurd h.ready.fits hfits

theorem always_closing (hn : 2 ≤ n) {forces : Option (Forces α)} (hf : Forces.LeaveSlots forces)
    (h : s.InOrder u now) (hle : now.toAbsolute u.timebase ≤ next.toAbsolute u.timebase) :
    (closing u forces s next).Always (fun e _ => ¬ e.isCheck) s fun _ s' => s'.InOrder u next := by
  rw [closing, land]
  apply Act.always_bind.2
  apply Act.always_onFault.2
  apply Act.always_bind.2
  apply Act.always_bind.2
  apply (always_arrive_ready h hle).mono ?_ fun _ _ he => Fault.not_isCheck_of_isNumeric he
  rintro r s₁ ⟨rfl, h₁, hdue, -, hrows₁⟩
  apply Act.always_bind.2
  apply ((always_prepare (fun _ => Fault.not_isCheck_of_isNumeric) hf h₁).and
    (keeps_prepare forces r.1 s₁)).mono ?_ fun _ _ he => he.1
  rintro active s₂ ⟨⟨h₂, -, hactive⟩, hkept⟩
  have hrows₂ : s₂.rows = s₁.rows := congrArg (·.2.2.2.2.1) hkept
  apply Act.always_pure.2
  apply Act.always_bind.2
  apply (always_proceed_ready hn h₂.self true).mono ?_ fun _ _ he => he
  rintro _ s₃ ⟨h₃, hphase, hrows₃⟩
  apply Act.always_pure.2
  apply Act.always_bind.2
  apply Act.always_get.2
  apply Act.always_bind.2
  apply Act.always_set.2
  apply Act.always_pure.2
  refine ⟨h₃.withRecords, ?_, ?_⟩
  · show s₃.phase ≠ .aborted
    rw [hphase]
    exact Phase.noConfusion
  · intro row hrow
    rcases List.mem_append.1 hrow with hold | hnew
    · rw [hrows₃, hrows₂, hrows₁] at hold
      exact h.rows row hold
    · obtain rfl := List.mem_singleton.1 hnew
      show r.2 = active
      rw [hdue, hactive]

end Stepper

namespace Fleet

variable {f : Fleet α m} {store : Ranks m (Store α)} {ops : Nat → Operation} {k : Nat}
  {s t : Ranks m (Stepper α f.setup.bins)} {now : Tick}

/-- An operation of all ranks, where `k` have been completed. -/
def operate (f : Fleet α m) (k : Nat) (op : Operation) :
    Ranks m (Stepper.Step α f.setup.bins Unit) :=
  fun i => Stepper.operate (f.on i) (f.forces k i) op

/-- The ranks after a number of operations, if all of these are completed. -/
def performed? (f : Fleet α m) (store : Ranks m (Store α)) (ops : Nat → Operation) :
    Nat → Option (Ranks m (Stepper α f.setup.bins))
  | 0 => f.first? store
  | k + 1 => (performed? f store ops k).bind (Ranks.states? (f.operate k (ops k)))

theorem performed?_succ : f.performed? store ops (k + 1) = some t ↔
    ∃ s, f.performed? store ops k = some s ∧ Ranks.states? (f.operate k (ops k)) s = some t := by
  rw [performed?, Option.bind_eq_some_iff]

theorem exists_agree (hu : f.setup.IsMade) (hl : now.localTick < f.setup.timebase)
    (h : ∀ i, (s i).InOrder (f.on i) now) : ∃ next : Tick, next.localTick < f.setup.timebase ∧
      now.toAbsolute f.setup.timebase ≤ next.toAbsolute f.setup.timebase ∧
      Ranks.Finish (fun _ => Stepper.agree f.setup.timebase) s
        (fun i => .ok ({ s i with phase := .sync }, next))
        fun i => { s i with phase := .sync } := by
  have hagree := Stepper.finish_agree (fun i => (h i).ready.current) (Int.ne_of_gt hu.timebase_pos)
  refine ⟨_, Int.fmod_lt_of_pos _ hu.timebase_pos, ?_, hagree⟩
  rw [Tick.toAbsolute_ofAbsolute]
  obtain ⟨i, hi⟩ := Ranks.exists_eq_least fun i =>
    ((s i).registry.nextSync now f.setup.timebase).toAbsolute f.setup.timebase
  rw [hi]
  have hready := (h i).ready
  have hbins {p : Particle α} (hp : p ∈ (s i).store) : 0 ≤ p.bin ∧ p.bin < f.setup.bins :=
    ⟨(hready.fits p hp).1, (hready.fits p hp).2.1⟩
  have hdue := hready.counts.isLeast_nextSync hl fun p hp => hbins hp
  exact Registry.le_of_mem_dueTicks hl hdue.1

/-- Ranks that settle an operation are in order at a tick after it, and none fails by a check. -/
def LeavesInOrder (f : Fleet α m) (k : Nat) (op : Operation)
    (s : Ranks m (Stepper α f.setup.bins)) (next : Tick) : Prop :=
  ∀ i r t, Ranks.Settles (f.operate k op) s i r t →
    (∀ b, r = .ok b → t.InOrder (f.on i) next) ∧ ∀ e, r = .error e → ¬ e.isCheck

section Operate

variable {next : Tick} {op : Operation}

theorem leavesInOrder_of_always
    (h : ∀ i, (f.operate k op i).Always (fun e _ => ¬ e.isCheck) (s i)
      fun _ t => t.InOrder (f.on i) next) : f.LeavesInOrder k op s next :=
  fun _ _ _ hr => hr.spec h

variable (hu : f.setup.IsMade) (hf : ∀ k i, Forces.LeaveSlots (f.forces k i))
  (h : ∀ i, (s i).InOrder (f.on i) now)

section Agreed

variable (hle : now.toAbsolute f.setup.timebase ≤ next.toAbsolute f.setup.timebase)
  (hagree : Ranks.Finish (fun _ => Stepper.agree f.setup.timebase) s
    (fun i => .ok ({ s i with phase := .sync }, next)) fun i => { s i with phase := .sync })

include h hle hagree

theorem leavesInOrder_synchronize : f.LeavesInOrder k .synchronize s next := by
  have hx (i : Fin (m + 1)) : (do
      let _ ← Stepper.arrive (f.on i) { s i with phase := .sync } next
      pure () : Stepper.Step α f.setup.bins Unit).Always (fun e _ => ¬ e.isCheck)
        { s i with phase := .sync } fun _ t => t.InOrder (f.on i) next := by
    apply Act.always_bind.2
    apply (Stepper.always_arrive_ready (h i).synced hle).mono ?_ fun _ _ =>
      Fault.not_isCheck_of_isNumeric
    rintro e t ⟨-, ht, -, hphase, hrows⟩
    apply Act.always_pure.2
    exact ⟨ht.self, by rw [hphase]; exact (h i).synced.phase, by rw [hrows]; exact (h i).rows⟩
  intro i r t hr
  have hr' : Ranks.Settles (fun i => do
      let _ ← Stepper.synchronize (f.on i)
      pure () : Ranks m (Stepper.Step α f.setup.bins Unit)) s i r t := hr
  simp only [Stepper.synchronize_eq, bind_assoc] at hr'
  exact (hagree.settles_bind_iff.1 hr').spec hx

include hu hf

theorem leavesInOrder_cycle (hopen : ∀ i, ¬ Stepper.isFinished (f.on i) (s i)) :
    f.LeavesInOrder k .cycle s next := by
  have hx (i : Fin (m + 1)) : (do
      let _ ← Stepper.closing (f.on i) (f.forces k i) { s i with phase := .sync } next
      pure () : Stepper.Step α f.setup.bins Unit).Always (fun e _ => ¬ e.isCheck)
        { s i with phase := .sync } fun _ t => t.InOrder (f.on i) next := by
    apply Act.always_bind.2
    apply (Stepper.always_closing hu.two_le (hf k i) (h i).synced hle).mono ?_ fun _ _ he => he
    exact fun _ _ hs => Act.always_pure.2 hs
  intro i r t hr
  have hstart (i : Fin (m + 1)) : f.operate k .cycle i (s i) = (do
      let _ ← Stepper.openCycle (f.on i) (f.forces k i)
      pure () : Stepper.Step α f.setup.bins Unit) (s i) :=
    Act.bind_congr_apply (Stepper.runCycle_apply (f.forces k i) (h i).phase (hopen i)) _
  have hr' := hr.congr hstart
  simp only [Stepper.openCycle_eq_agree, bind_assoc] at hr'
  exact ((hagree.onFault_ok _).settles_bind_iff.1 hr').spec hx

end Agreed

include h

theorem leavesInOrder_refused (hfin : ∀ i, Stepper.isFinished (f.on i) (s i)) :
    f.LeavesInOrder k .cycle s now := by
  apply leavesInOrder_of_always
  intro i
  apply Act.always_bind.2
  exact (Stepper.does_runCycle_of_finished (f.forces k i) (h i).phase (hfin i)).always_error.2
    Bool.false_ne_true

include hf in
theorem leavesInOrder_forces : f.LeavesInOrder k .forces s now := by
  apply leavesInOrder_of_always
  intro i
  apply Act.always_bind.2
  exact Act.always_get.2 (Stepper.always_forces (hf k i) (h i))

include hu in
theorem leavesInOrder_advance (toMiddle : Bool) : f.LeavesInOrder k (.advance toMiddle) s now := by
  apply leavesInOrder_of_always
  intro i
  apply Act.always_bind.2
  apply (Stepper.always_advance hu.two_le (h i) toMiddle).mono ?_ fun _ _ he => he
  exact fun _ _ hs => Act.always_pure.2 hs

include hu hf

/-- An operation leaves ranks in order at one tick. -/
theorem exists_leavesInOrder (hl : now.localTick < f.setup.timebase) (k : Nat) (op : Operation) :
    ∃ next : Tick, next.localTick < f.setup.timebase ∧ f.LeavesInOrder k op s next := by
  obtain ⟨next, hnext, hle, hagree⟩ := exists_agree hu hl h
  cases op with
  | synchronize => exact ⟨next, hnext, leavesInOrder_synchronize h hle hagree⟩
  | forces => exact ⟨now, hl, leavesInOrder_forces hf h⟩
  | advance toMiddle => exact ⟨now, hl, leavesInOrder_advance hu h toMiddle⟩
  | halfKick =>
    exact ⟨now, hl, leavesInOrder_of_always fun i => Stepper.always_halfKick_ready (h i)⟩
  | cycle =>
    have hfin (i : Fin (m + 1)) : Stepper.isFinished (f.on i) (s i) =
        decide (f.setup.timeline.endTick ≤ now.toAbsolute f.setup.timebase) := by
      rw [Stepper.isFinished, Stepper.currentAbsolute, (h i).ready.current]
      rfl
    by_cases hend : f.setup.timeline.endTick ≤ now.toAbsolute f.setup.timebase
    · exact ⟨now, hl, leavesInOrder_refused h fun i => (hfin i).trans (decide_eq_true hend)⟩
    · refine ⟨next, hnext, leavesInOrder_cycle hu hf h hle hagree fun i => ?_⟩
      rw [hfin, decide_eq_true_eq]
      exact hend

end Operate

/-- Completed operations leave ranks in order at one tick. -/
theorem exists_inOrder (hu : f.setup.IsMade) (hf : ∀ k i, Forces.LeaveSlots (f.forces k i))
    (h : f.performed? store ops k = some s) : ∃ now : Tick, now.localTick < f.setup.timebase ∧
      ∀ i, (s i).InOrder (f.on i) now := by
  induction k generalizing s with
  | zero =>
    refine ⟨⟨0, 0⟩, hu.timebase_pos, fun i => ?_⟩
    obtain ⟨hready, hphase, hrecords⟩ := Stepper.ready_of_made? (made?_of_first? h i)
    have hrows : (s i).rows = [] := congrArg (·.2.1) hrecords
    refine ⟨hready.self, ?_, ?_⟩
    · rw [hphase]
      exact Phase.noConfusion
    · rw [hrows]
      exact fun r hr => absurd hr List.not_mem_nil
  | succ k ih =>
    obtain ⟨t, ht, hs⟩ := performed?_succ.1 h
    obtain ⟨now, hl, hin⟩ := ih ht
    obtain ⟨next, hnext, hends⟩ := exists_leavesInOrder hu hf hin hl k (ops k)
    obtain ⟨b, hb⟩ := Ranks.exists_finish_of_states? hs
    exact ⟨next, hnext, fun i => (hends i _ _ (hb.settles i)).1 (b i) rfl⟩

/-- Particles of valid kinds in bin 0 are counted exactly when ranks are made from them and after
every operation that they complete together, and every completed cycle has reported as many due
particles as active ones. Whatever ranks do next, one that completes it has counted its particles
exactly, and one that fails does not fail by a check of the scheduler. -/
theorem counts_stay_exact (hu : f.setup.IsMade) (hf : ∀ k i, Forces.LeaveSlots (f.forces k i))
    (hstore : ∀ i, ∀ p ∈ store i, Kind.Exists p.kind ∧ p.bin = 0) :
    (∀ i s, Stepper.start (n := f.setup.bins) (f.on i) (store i) = .ok s →
      (Stepper.initBins (f.on i)).Ends (fun e => ¬ e.isCheck) s
        fun _ t => t.registry.Counts t.store) ∧
    ∀ ops k s, f.performed? store ops k = some s →
      (∀ i, (s i).registry.Counts (s i).store ∧
        ∀ r ∈ (s i).rows, r.report.due = r.report.active) ∧
      ∀ i r t, Ranks.Settles (f.operate k (ops k)) s i r t →
        (∀ b, r = .ok b → t.registry.Counts t.store) ∧ ∀ e, r = .error e → ¬ e.isCheck := by
  constructor
  · intro i s hs
    have hst : s.store = store i := by
      rcases Stepper.start_cases (n := f.setup.bins) (f.on i) (store i) with
        ⟨t, ht, hst, -⟩ | ⟨e, he, -⟩
      · cases hs.symm.trans ht
        exact hst
      · cases hs.symm.trans he
    have hfits : ∀ p ∈ s.store, p.Fits f.setup.bins := by
      rw [hst]
      intro p hp
      obtain ⟨hkind, hbin⟩ := hstore i p hp
      have htwo := hu.two_le
      exact ⟨by omega, by omega, hkind⟩
    apply (Stepper.ends_initBins s).mono
    · exact fun _ t ht => ht.1.counts
    · rintro e (he | hno)
      · exact Fault.not_isCheck_of_isNumeric (Config.isNumeric_instant he)
      · exact absurd hfits hno
  · intro ops k s h
    obtain ⟨now, hl, hin⟩ := exists_inOrder hu hf h
    obtain ⟨next, -, hends⟩ := exists_leavesInOrder hu hf hin hl k (ops k)
    refine ⟨fun i => ⟨(hin i).ready.counts, (hin i).rows⟩, fun i r t hr => ?_⟩
    obtain ⟨hok, herror⟩ := hends i r t hr
    exact ⟨fun b hb => (hok b hb).ready.counts, herror⟩

end Fleet

namespace Sample

def operations : Nat → Operation
  | 0 | 1 => .cycle
  | 2 => .synchronize
  | 3 => .forces
  | 4 => .advance false
  | _ => .halfKick

theorem kind_exists (i : Fin 2) : ∀ p ∈ store i, Kind.Exists p.kind ∧ p.bin = 0 := by
  match i with
  | 0 => simp [store, particle, default, Particle.zero, Kind.Exists, Kind.count]
  | 1 => simp [store, particle, default, Particle.zero, Kind.Exists, Kind.count]

end Sample

theorem Fleet.counts_stay_exact_sample :
    ∃ s, Sample.fleet.performed? Sample.store Sample.operations 6 = some s ∧
      (s 0).rows.length = 2 ∧ ∀ i, (s i).registry.Counts (s i).store ∧
        ∀ r ∈ (s i).rows, r.report.due = r.report.active := by
  have hrun : (Sample.fleet.performed? Sample.store Sample.operations 6).map
      (fun s => (s 0).rows.length) = some 2 := by decide +kernel
  obtain ⟨s, h, hrows⟩ := Option.map_eq_some_iff.1 hrun
  have hall := (counts_stay_exact (f := Sample.fleet) Sample.isMade
    (fun _ _ => Forces.leaveSlots_none) Sample.kind_exists).2
  exact ⟨s, h, hrows, (hall _ _ s h).1⟩

end BlockStep

import BlockStep.Proofs.Endings
import BlockStep.Proofs.Outset
import BlockStep.Proofs.Round

namespace BlockStep

variable {α : Type} [Scalar α] {m : Nat}

/-- Ranks that run together: they share all but the writers of their snapshots, and in each cycle
each has its own computation of forces, if any. -/
structure Fleet (α : Type) (m : Nat) where
  setup : Setup α
  writer : Ranks m (Option SnapshotWriter)
  forces : Nat → Ranks m (Option (Forces α))

namespace Fleet

variable (f : Fleet α m)

omit [Scalar α] in
def on (i : Fin (m + 1)) : Setup α := { f.setup with writer := f.writer i }

/-- A cycle of all ranks, where `k` have been completed. -/
def cycle (k : Nat) : Ranks m (Stepper.Step α f.setup.bins (Report α)) :=
  fun i => Stepper.runCycle (f.on i) (f.forces k i)

/-- The ranks before the first cycle, if all can be made. -/
def first? (store : Ranks m (Store α)) : Option (Ranks m (Stepper α f.setup.bins)) :=
  if h : ∀ i, (Stepper.made? (f.on i) (store i)).isSome then
    some fun i => (Stepper.made? (f.on i) (store i)).get (h i)
  else none

/-- The ranks after a number of cycles, if all of these are completed. -/
def after? (store : Ranks m (Store α)) : Nat → Option (Ranks m (Stepper α f.setup.bins))
  | 0 => f.first? store
  | k + 1 => (after? store k).bind (Ranks.states? (f.cycle k))

/-- The forces of no cycle change the schedule. -/
def KeepsSchedule : Prop := ∀ k, Forces.KeepSchedule (f.forces k)

variable {f} {store : Ranks m (Store α)} {s : Ranks m (Stepper α f.setup.bins)}

theorem first?_cases (f : Fleet α m) (store : Ranks m (Store α)) :
    (∃ s, f.first? store = some s ∧ (∀ i, (s i).IsFirst (store i)) ∧ Stepper.IsBegun f.setup ∧
      ∀ i, ∀ p ∈ store i, p.Fits f.setup.bins) ∨
    f.first? store = none ∧
      ¬ (Stepper.IsBegun f.setup ∧ ∀ i, ∀ p ∈ store i, p.Fits f.setup.bins) := by
  rw [first?]
  by_cases h : ∀ i, (Stepper.made? (f.on i) (store i)).isSome
  · rw [dif_pos h]
    have hi (i : Fin (m + 1)) : ((Stepper.made? (f.on i) (store i)).get (h i)).IsFirst (store i) ∧
        Stepper.IsBegun f.setup ∧ ∀ p ∈ store i, p.Fits f.setup.bins := by
      rcases Stepper.made?_cases (f.on i) (store i) with ⟨s, hs, hspec⟩ | ⟨hs, -⟩
      · simp only [hs, Option.get_some]
        exact hspec
      · have := h i
        rw [hs] at this
        cases this
    exact .inl ⟨_, rfl, fun i => (hi i).1, (hi 0).2.1, fun i => (hi i).2.2⟩
  · rw [dif_neg h]
    refine .inr ⟨rfl, ?_⟩
    rintro ⟨hb, hf⟩
    refine h fun i => ?_
    rcases Stepper.made?_cases (f.on i) (store i) with ⟨s, hs, -⟩ | ⟨-, hno⟩
    · rw [hs]
      rfl
    · exact absurd ⟨hb, hf i⟩ hno

theorem made?_of_first? (h : f.first? store = some s) (i : Fin (m + 1)) :
    Stepper.made? (f.on i) (store i) = some (s i) := by
  rw [first?] at h
  split at h
  · cases h
    exact (Option.some_get _).symm
  · cases h

theorem isFirst_of_after? (h : f.after? store 0 = some s) (i : Fin (m + 1)) :
    (s i).IsFirst (store i) := by
  rcases f.first?_cases store with ⟨t, ht, hfirst, -⟩ | ⟨hn, -⟩
  · cases ht.symm.trans h
    exact hfirst i
  · cases hn.symm.trans h

theorem after?_succ {k : Nat} {s' : Ranks m (Stepper α f.setup.bins)} :
    f.after? store (k + 1) = some s' ↔
      ∃ s, f.after? store k = some s ∧ Ranks.states? (f.cycle k) s = some s' := by
  rw [after?, Option.bind_eq_some_iff]

end Fleet

/-- All ranks are at one tick, in one mesh step, and have counted their particles. -/
structure InStep (u : Setup α) (now : Tick) (mesh : MeshStep) (s : Ranks m (Stepper α u.bins)) :
    Prop where
  counts : ∀ i, (s i).registry.Counts (s i).store
  phase : ∀ i, (s i).phase ≠ .aborted
  current : ∀ i, (s i).current = now
  mesh : ∀ i, (s i).mesh = mesh

namespace InStep

section

variable {u : Setup α} {now : Tick} {mesh : MeshStep} {s s' : Ranks m (Stepper α u.bins)}

omit [Scalar α] in
theorem of_first {store : Ranks m (Store α)} (h : ∀ i, (s i).IsFirst (store i)) :
    InStep u ⟨0, 0⟩ ⟨0, 0⟩ s where
  counts i := by
    rw [(h i).store]
    exact (h i).counts
  phase i := by
    rw [(h i).phase]
    exact fun hp => by cases hp
  current i := (h i).current
  mesh i := (h i).mesh

theorem of_leads {c : Course α} {st : Ranks m (Store α)}
    (h : c.Leads u now mesh s st s') : InStep u c.next (c.meshAfter u mesh) s' where
  counts i := (h.ran i).counts
  phase i := by
    rw [(h.ran i).phase]
    exact fun hp => by cases hp
  current i := (h.ran i).current
  mesh i := (h.ran i).mesh

omit [Scalar α] in
theorem isFinished_eq (h : InStep u now mesh s) (w : Option SnapshotWriter) (i : Fin (m + 1)) :
    Stepper.isFinished { u with writer := w } (s i) =
      decide (u.timeline.endTick ≤ now.toAbsolute u.timebase) := by
  rw [Stepper.isFinished, Stepper.currentAbsolute, h.current i]
  rfl

end

variable {f : Fleet α m} {now : Tick} {mesh : MeshStep} {s s' : Ranks m (Stepper α f.setup.bins)}
  {k : Nat}

theorem joint_finished {A E : Fault → Prop}
    {Q : Ranks m (Report α) → Ranks m (Stepper α f.setup.bins) → Prop}
    (h : InStep f.setup now mesh s)
    (hend : f.setup.timeline.endTick ≤ now.toAbsolute f.setup.timebase)
    (hA : A .runFinished) : Joint A E (f.cycle k) s Q := by
  refine Joint.of_error (fun i => ?_) hA
  have hfin : Stepper.isFinished (f.on i) (s i) :=
    (h.isFinished_eq (f.writer i) i).trans (decide_eq_true hend)
  exact (Stepper.does_runCycle_of_finished (u := f.on i) (f.forces k i)
    (h.phase i) hfin).ends_error.2 rfl

/-- Ranks that complete a cycle have not been at the end of the run. -/
theorem not_isFinished (h : InStep f.setup now mesh s)
    (hs : Ranks.states? (f.cycle k) s = some s') (i : Fin (m + 1)) :
    ¬ Stepper.isFinished (f.on i) (s i) := by
  rw [Fleet.on, h.isFinished_eq, decide_eq_true_eq]
  intro hend
  obtain ⟨-, hno⟩ := (h.joint_finished (A := fun _ => True) (E := fun _ => True)
    (Q := fun _ _ => False) hend trivial).of_states? hs
  exact hno

/-- A cycle of ranks in step, with forces that leave the schedule alone. -/
theorem joint_cycle (h : InStep f.setup now mesh s) (hu : f.setup.IsMade) (hf : f.KeepsSchedule) :
    Joint (fun _ => True) (fun _ => True) (f.cycle k) s fun _ s' =>
      now.toAbsolute f.setup.timebase < f.setup.timeline.endTick ∧
      ∃ (c : Course α) (st : Ranks m (Store α)), (∀ i, (st i).slots = (s i).store.slots) ∧
        c.Leads f.setup now mesh s st s' := by
  by_cases hend : now.toAbsolute f.setup.timebase < f.setup.timeline.endTick
  · refine (Stepper.joint_runCycle (K := fun st st' => st'.slots = st.slots) hu.two_le
      (Int.ne_of_gt hu.timebase_pos) h.current h.mesh (fun _ => rfl) (fun next t ht => ?_)
      (fun _ _ _ _ _ _ => trivial) (fun _ _ _ _ _ => trivial) h.phase hend).mono
        fun _ s' hs => ⟨hend, hs⟩
    exact Stepper.joint_prepare (hf k) ht
  · exact h.joint_finished (Int.not_lt.1 hend) trivial

end InStep

namespace Fleet

variable {f : Fleet α m} {k : Nat} {s t : Ranks m (Stepper α f.setup.bins)}

/-- Before and after every cycle the ranks of a run are in step. -/
theorem exists_inStep (hu : f.setup.IsMade) (hf : f.KeepsSchedule) {store : Ranks m (Store α)}
    (h : f.after? store k = some s) : ∃ now mesh, InStep f.setup now mesh s := by
  induction k generalizing s with
  | zero => exact ⟨_, _, InStep.of_first (isFirst_of_after? h)⟩
  | succ k ih =>
    obtain ⟨t, ht, hs⟩ := after?_succ.1 h
    obtain ⟨now, mesh, hin⟩ := ih ht
    obtain ⟨_, -, c, st, -, hc⟩ := (hin.joint_cycle hu hf).of_states? hs
    exact ⟨_, _, InStep.of_leads hc⟩

section Finish

variable (hp : ∀ i, (s i).phase ≠ .aborted) (hfin : ∀ i, ¬ Stepper.isFinished (f.on i) (s i))

include hp hfin

theorem cycle_apply (i : Fin (m + 1)) :
    f.cycle k i (s i) = Stepper.openCycle (f.on i) (f.forces k i) (s i) :=
  Stepper.runCycle_apply (u := f.on i) (f.forces k i) (hp i) (hfin i)

/-- Where ranks have agreed on a tick, a cycle comes to what it does from there. -/
theorem settles_cycle_iff {next : Tick}
    (hagree : Ranks.Finish (fun _ => Stepper.agree f.setup.timebase) s
      (fun i => .ok ({ s i with phase := .sync }, next)) fun i => { s i with phase := .sync })
    {i : Fin (m + 1)} {r : Except Fault (Report α)} {t : Stepper α f.setup.bins} :
    Ranks.Settles (f.cycle k) s i r t ↔ Ranks.Settles
      (fun i => Stepper.closing (f.on i) (f.forces k i) { s i with phase := .sync } next)
      (fun i => { s i with phase := .sync }) i r t := by
  have hopen : Ranks.Settles (f.cycle k) s i r t ↔
      Ranks.Settles (fun i => Stepper.openCycle (f.on i) (f.forces k i)) s i r t := by
    rw [Ranks.Settles, Ranks.Settles, funext (cycle_apply hp hfin)]
  rw [hopen]
  simp only [Stepper.openCycle_eq_agree]
  exact (hagree.onFault_ok _).settles_bind_iff

/-- A rank that fails on the way does not complete the cycle. -/
theorem not_fails_turnover {s' : Ranks m (Stepper α f.setup.bins)}
    (hs : Ranks.states? (f.cycle k) s = some s') {i : Fin (m + 1)} {e : Fault} :
    ¬ Ranks.Fails (fun i => Stepper.turnover (f.on i) (f.forces k i)) s i e := by
  intro hfails
  have hcycle : Ranks.Fails (fun i => Stepper.openCycle (f.on i) (f.forces k i)) s i e := by
    simp only [Stepper.openCycle]
    exact (hfails.onFault _).bind _
  rw [Ranks.Fails, ← funext (cycle_apply hp hfin)] at hcycle
  cases hs.symm.trans (Ranks.Fails.states?_eq_none hcycle)

/-- A cycle that is not refused ends with the fault that ends its steps. -/
theorem finish_cycle_of_error {e : Fault}
    (ht : Ranks.Finish (fun i => Stepper.turnover (f.on i) (f.forces k i)) s
      (fun _ => .error e) t) :
    Ranks.Finish (f.cycle k) s (fun _ => .error e) fun i => { t i with phase := .aborted } := by
  have hfault := ht.onFault_error fun s => { s with phase := .aborted }
  have hopen : Ranks.Finish (fun i => Stepper.openCycle (f.on i) (f.forces k i)) s
      (fun _ => .error e) fun i => { t i with phase := .aborted } := by
    simp only [Stepper.openCycle]
    exact hfault.bind_error _
  exact hopen.congr (cycle_apply hp hfin)

theorem finish_cycle_of_ok {b : Ranks m (Tick × Int × Nat)}
    (ht : Ranks.Finish (fun i => Stepper.turnover (f.on i) (f.forces k i)) s
      (fun i => .ok (b i)) t) :
    Ranks.Finish (f.cycle k) s
      (fun i => .ok ((t i).row (f.on i) (b i).1 (b i).2.1 (b i).2.2).report) fun i => { t i with
        rows := (t i).rows ++ [(t i).row (f.on i) (b i).1 (b i).2.1 (b i).2.2]
        cycle := (t i).cycle + 1 } := by
  have hgood := ht.onFault_ok fun s => { s with phase := .aborted }
  have hopen : Ranks.Finish (fun i => Stepper.openCycle (f.on i) (f.forces k i)) s
      (fun i => .ok ((t i).row (f.on i) (b i).1 (b i).2.1 (b i).2.2).report) fun i => { t i with
        rows := (t i).rows ++ [(t i).row (f.on i) (b i).1 (b i).2.1 (b i).2.2]
        cycle := (t i).cycle + 1 } := by
    simp only [Stepper.openCycle]
    refine hgood.bind (Ranks.finish_of_does fun i => ?_)
    refine Act.does_bind_ok.2 ⟨t i, t i, Act.does_get.2 ⟨rfl, rfl⟩, ?_⟩
    exact Act.does_bind_ok.2 ⟨(), _, Act.does_set.2 ⟨rfl, rfl⟩, Act.does_pure.2 ⟨rfl, rfl⟩⟩
  exact hopen.congr (cycle_apply hp hfin)

end Finish

end Fleet

end BlockStep

import BlockStep.Proofs.Together

namespace BlockStep

variable {α : Type} [Scalar α] {m n : Nat}

namespace Course

variable {u : Setup α} {mesh : MeshStep} {c : Course α} {p : Particle α}

theorem exists_after (p : Particle α) :
    ∃ v, c.after u n mesh p = { c.turned u n p with vel := v } := by
  rw [after]
  split
  · exact ⟨_, rfl⟩
  · exact ⟨_, rfl⟩

theorem mass_after (p : Particle α) : (c.after u n mesh p).mass = p.mass := by
  obtain ⟨v, hv⟩ := exists_after (u := u) (n := n) (c := c) p
  rw [hv]
  show (c.turned u n p).mass = p.mass
  rw [turned]
  split
  · rw [Stepper.turnTo, if_pos rfl]
    obtain ⟨g, hg⟩ := Kicker.exists_kickOne u.kicker c.instant.factors p.midpoint
      (kickPoint p.slot.stop (Assign.place n (c.isActive n) (c.want u p) p.bin).ticks)
      (u.kicker.note (kickPoint p.slot.stop
        (Assign.place n (c.isActive n) (c.want u p) p.bin).ticks)
        { p with
          bin := (Assign.place n (c.isActive n) (c.want u p) p.bin).bin
          stepStart := p.slot.stop })
    rw [hg, Kicker.note]
    split <;> rfl
  · rfl

theorem kickTick_after (hk : u.kicker.isChecked) (hp : p.kickTick = p.midpoint) :
    (c.after u n mesh p).kickTick = (c.after u n mesh p).midpoint := by
  obtain ⟨v, hv⟩ := exists_after (u := u) (n := n) (c := c) p
  rw [hv]
  show (c.turned u n p).kickTick = (c.turned u n p).midpoint
  rw [turned]
  split
  · exact (Stepper.turnTo_kickTick hk true _ _ _ p).trans (if_pos rfl)
  · exact hp

theorem fits_after (hn : 2 ≤ n) (hp : p.Fits n) : (c.after u n mesh p).Fits n := by
  by_cases hd : c.isDue n p
  · have hslot : (c.after u n mesh p).slot =
        ⟨p.kind, (Assign.place n (c.isActive n) (c.want u p) p.bin).bin, p.slot.stop⟩ :=
      (slot_after p).trans (if_pos hd)
    have hbin : (c.after u n mesh p).bin = (Assign.place n (c.isActive n) (c.want u p) p.bin).bin :=
      congrArg Slot.bin hslot
    have hkind : (c.after u n mesh p).kind = p.kind := congrArg Slot.kind hslot
    rw [Particle.Fits, hbin, hkind]
    obtain ⟨hnonneg, hlt⟩ := Assign.place_inTable hn hp.1 hp.2.1
    exact ⟨hnonneg, hlt, hp.2.2⟩
  · have hslot : (c.after u n mesh p).slot = p.slot := (slot_after p).trans (if_neg hd)
    exact hp.of_slot hslot.symm

end Course

structure Steady (u : Setup α) (now : Tick) (pm : MeshStep) (s : Ranks m (Stepper α u.bins)) : Prop
    extends InStep u now pm s where
  alike : ∀ i j, (s i).phase = (s j).phase
  fits : ∀ i, ∀ p ∈ (s i).store, p.Fits u.bins
  kicked : u.kicker.isChecked → ∀ i, (s i).store.IsKicked
  masses : ∀ i, (s i).store.HasMasses
  isStep : TickCount.IsStep pm.step

namespace Steady

variable {u : Setup α} {now next : Tick} {mesh : MeshStep} {s s' t : Ranks m (Stepper α u.bins)}

theorem of_first {store : Ranks m (Store α)} (h : ∀ i, (s i).IsFirst (store i))
    (hfits : ∀ i, ∀ p ∈ store i, p.Fits u.bins)
    (hfresh : ∀ i, ∀ p ∈ store i, p.bin = 0 ∧ p.stepStart = 0 ∧ p.kickTick = 0)
    (hmass : ∀ i, (store i).HasMasses) : Steady u ⟨0, 0⟩ ⟨0, 0⟩ s where
  toInStep := .of_first h
  alike i j := (h i).phase.trans (h j).phase.symm
  fits i := by
    rw [(h i).store]
    exact hfits i
  kicked _ i p hp := by
    rw [(h i).store] at hp
    obtain ⟨hbin, hstart, htick⟩ := hfresh i p hp
    rw [Particle.midpoint, hbin, hstart, htick]
    rfl
  masses i := by
    rw [(h i).store]
    exact hmass i
  isStep := .inl rfl

/-- Ranks that have gone through a course with what has become of their particles. -/
theorem of_ran (hs : Steady u now mesh s) (hn : 2 ≤ u.bins) {c : Course α} {st : Ranks m (Store α)}
    (hst : ∀ i, (s i).store.Eases (st i)) (hm : c.Meshed u mesh st)
    (h : ∀ i, c.Ran u mesh (st i) (s' i)) : Steady u c.next (c.meshAfter u mesh) s' where
  counts i := (h i).counts
  phase i := by
    rw [(h i).phase]
    exact fun hp => by cases hp
  current i := (h i).current
  mesh i := (h i).mesh
  alike i j := (h i).phase.trans (h j).phase.symm
  fits i p hp := by
    rw [(h i).store] at hp
    obtain ⟨q, hq, rfl⟩ := Array.mem_map.1 hp
    obtain ⟨l, hl⟩ := Array.getElem?_of_mem hq
    obtain ⟨r, hr, hslot⟩ := Store.exists_of_slots_eq (Store.slots_of_marks (hst i).marks) hl
    exact Course.fits_after hn ((hs.fits i r (Array.mem_of_getElem? hr)).of_slot hslot)
  kicked hk i p hp := by
    rw [(h i).store] at hp
    obtain ⟨q, hq, rfl⟩ := Array.mem_map.1 hp
    exact Course.kickTick_after hk ((hs.kicked hk i).of_marks (hst i).marks q hq)
  masses i p hp := by
    rw [(h i).store] at hp
    obtain ⟨q, hq, rfl⟩ := Array.mem_map.1 hp
    rw [Course.mass_after]
    exact (hst i).masses (hs.masses i) q hq
  isStep := by
    rw [Course.meshAfter]
    split
    next ha => exact MeshStep.isStep_of_ticksOf (hm.renewed ha)
    · exact hs.isStep

end Steady

namespace Fleet

/-- The ranks after a number of cycles, completed or failed, as long as all ranks come to an end. -/
def reached? (f : Fleet α m) (store : Ranks m (Store α)) :
    Nat → Option (Ranks m (Stepper α f.setup.bins))
  | 0 => f.first? store
  | k + 1 => (reached? f store k).bind fun s =>
    (Ranks.outcomes? (f.cycle k) s).map fun o i => (o i).state

/-- In a cycle ranks come to where new steps are taken, with these mesh steps in force. -/
structure Arrives (f : Fleet α m) (k : Nat) (s : Ranks m (Stepper α f.setup.bins))
    (r : Ranks m (Tick × Int × Nat)) (t : Ranks m (Stepper α f.setup.bins))
    (ticks : Ranks m Int) : Prop where
  lead : Ranks.Finish (fun i => Stepper.lead (f.on i) (f.forces k i)) s (fun i => .ok (r i)) t
  ticks : Ranks.Finish (fun i => Stepper.meshTicks (f.on i) (t i)) t (fun i => .ok (ticks i)) t

/-- A cycle comes to where new steps are taken, and there rank `i` lacks weights that rank `j` does
not lack. -/
def Splits (f : Fleet α m) (k : Nat) (s : Ranks m (Stepper α f.setup.bins)) (i j : Fin (m + 1)) :
    Prop :=
  (∀ i, (s i).phase ≠ .aborted ∧ ¬ Stepper.isFinished (f.on i) (s i)) ∧ ∃ r t ticks,
    f.Arrives k s r t ticks ∧ Stepper.LacksWeights f.setup (ticks i) (t i) ∧
      ¬ Stepper.LacksWeights f.setup (ticks j) (t j)

/-- All ranks come to the end of a cycle through the same reductions with the same answers, all with
results or all with one fault, and are then at one tick, in one mesh step and in one phase. -/
def KeepsStep (f : Fleet α m) (k : Nat) (s : Ranks m (Stepper α f.setup.bins)) : Prop :=
  ∃ (o : Ranks m (Outcome α (Stepper α f.setup.bins) (Report α))) (ws : List (Collective.Call α)),
    Ranks.outcomes? (f.cycle k) s = some o ∧ (∀ i, Collective.Issues (f.cycle k i (s i)) ws (o i)) ∧
    ((∀ i, ∃ b, (o i).result = .ok b) ∨ ∃ e, ∀ i, (o i).result = .error e) ∧
    ∃ now mesh phase, ∀ i, (o i).state.current = now ∧ (o i).state.mesh = mesh ∧
      (o i).state.phase = phase

def IsLevel (f : Fleet α m) (s : Ranks m (Stepper α f.setup.bins)) : Prop :=
  ∃ now mesh, Steady f.setup now mesh s ∨
    ∀ i, (s i).current = now ∧ (s i).mesh = mesh ∧ (s i).phase = .aborted

variable {f : Fleet α m} {store : Ranks m (Store α)} {k : Nat} {now next : Tick} {mesh : MeshStep}
  {s t : Ranks m (Stepper α f.setup.bins)} {i j : Fin (m + 1)}

theorem IsLevel.exists_phase (h : f.IsLevel s) : ∃ now mesh phase, ∀ i,
    (s i).current = now ∧ (s i).mesh = mesh ∧ (s i).phase = phase := by
  obtain ⟨now, mesh, hs | hs⟩ := h
  · exact ⟨now, mesh, (s 0).phase, fun i => ⟨hs.current i, hs.mesh i, hs.alike i 0⟩⟩
  · exact ⟨now, mesh, .aborted, hs⟩

structure Met (f : Fleet α m) (k : Nat) (pm : MeshStep) (s : Ranks m (Stepper α f.setup.bins))
    (r : Ranks m (Tick × Int × Nat)) (t : Ranks m (Stepper α f.setup.bins)) (c : Course α) : Prop
    extends f.Arrives k s r t fun _ => c.most where
  ready : ∀ i, (t i).Ready f.setup c.next pm
  eases : ∀ i, (s i).store.Eases (t i).store
  instant : ∀ i, (t i).instant = c.instant
  kicked : f.setup.kicker.isChecked → ∀ i, (t i).store.IsKicked
  meshed : c.Meshed f.setup pm fun i => (t i).store
  nonneg : 0 ≤ c.most
  eq : c = Stepper.courseOf f.setup c.next c.instant c.most t

section Turnover

variable {r : Ranks m (Tick × Int × Nat)} {t' : Ranks m (Stepper α f.setup.bins)} {e : Fault}
  (hlead : Ranks.Finish (fun i => Stepper.lead (f.on i) (f.forces k i)) s (fun i => .ok (r i)) t)

include hlead

theorem finish_turnover_of_ok {b : Ranks m Nat}
    (h : Ranks.Finish (fun i => Stepper.proceed (f.on i) true) t (fun i => .ok (b i)) t') :
    Ranks.Finish (fun i => Stepper.turnover (f.on i) (f.forces k i)) s (fun i => .ok (r i)) t' :=
  hlead.bind (h.bind (Ranks.finish_of_does fun _ => Act.does_pure.2 ⟨rfl, rfl⟩))

theorem finish_turnover_of_error
    (h : Ranks.Finish (fun i => Stepper.proceed (f.on i) true) t (fun _ => .error e) t') :
    Ranks.Finish (fun i => Stepper.turnover (f.on i) (f.forces k i)) s (fun _ => .error e) t' :=
  hlead.bind (h.bind_error _)

end Turnover

section Signed

variable [Scalar.Signed α] (hu : f.setup.IsMade) (ho : ¬ f.setup.config.cosmology.omega0 < 0.0)
  (hg : ¬ f.setup.config.cosmology.gravity < 0.0) (hf : Forces.Mild (f.forces k))
  (hs : Steady f.setup now mesh s)

include hu ho hg hf hs

/-- Steady ranks come to where new steps are taken, or fail alike. -/
theorem exists_met : (∃ r t c, f.Met k mesh s r t c) ∨ (∀ r t ticks, ¬ f.Arrives k s r t ticks) ∧
    ∃ (e : Fault) (t : Ranks m (Stepper α f.setup.bins)) (now' : Tick),
      Ranks.Finish (fun i => Stepper.turnover (f.on i) (f.forces k i)) s (fun _ => .error e) t ∧
        ∀ i, (t i).current = now' ∧ (t i).mesh = mesh := by
  rcases Stepper.finish_lead (w := f.writer) ho hg hf hs.masses hs.current hs.mesh hs.fits
    (Int.ne_of_gt hu.timebase_pos) with ⟨r, t, next, hlead, ht⟩ | ⟨e, t, now', hlead, ht⟩
  · have hinstant (i : Fin (m + 1)) : (t i).instant = (t 0).instant :=
      Except.ok.inj ((ht i).1.instant.symm.trans (ht 0).1.instant)
    rcases Stepper.finish_meshTicks (w := f.writer) (fun i => (ht i).1) hinstant with
      ⟨most, hticks, hnew, hold⟩ | ⟨e, t', hticks, ht'⟩
    · have hstep : TickCount.IsStep most := by
        by_cases hm : next.toAbsolute f.setup.timebase = mesh.stop
        · exact MeshStep.isStep_of_ticksOf (hnew hm)
        · rw [hold hm]
          exact hs.isStep
      refine .inl ⟨r, t, Stepper.courseOf f.setup next (t 0).instant most t, ⟨hlead, hticks⟩,
        fun i => (ht i).1, fun i => (ht i).2, hinstant, fun hk i => ?_, ?_, ?_, rfl⟩
      · exact (hs.kicked hk i).of_marks (ht i).2.marks
      · exact ⟨fun ha => hnew (beq_iff_eq.1 ha), fun ha => hold fun he => ha (beq_iff_eq.2 he)⟩
      · rcases hstep with rfl | ⟨b, -, rfl⟩
        · exact Int.le_refl 0
        · exact Int.natCast_nonneg _
    · refine .inr ⟨fun r' t₁ ticks h => ?_, e, t', next, finish_turnover_of_error hlead ?_, ht'⟩
      · obtain ⟨-, rfl⟩ := h.lead.unique hlead
        cases congrFun (h.ticks.unique hticks).1 0
      · exact (hticks.bind_error _).congr fun i =>
    Stepper.proceed_apply_allot (f.on i) true (t i)
  · refine .inr ⟨fun r' t₁ ticks h => ?_, e, t, now', ?_, fun i => ⟨congrArg (·.1) (ht i), ?_⟩⟩
    · cases congrFun (h.lead.unique hlead).1 0
    · exact Ranks.Finish.bind_error hlead _
    · exact (congrArg (·.2.1) (ht i)).trans (hs.mesh i)

end Signed

namespace Met

variable {r : Ranks m (Tick × Int × Nat)} {c : Course α}

section

variable [Scalar.Signed α] (h : f.Met k mesh s r t c) (hu : f.setup.IsMade)

include h hu

/-- Steady ranks of which none lacks weights end the cycle's steps steadily, or fail alike. -/
theorem finish (hs : Steady f.setup now mesh s)
    (hw : ∀ i, ¬ Stepper.LacksWeights f.setup c.most (t i)) :
    (∃ t', Ranks.Finish (fun i => Stepper.turnover (f.on i) (f.forces k i)) s
      (fun i => .ok (r i)) t' ∧ Steady f.setup c.next (c.meshAfter f.setup mesh) t') ∨
    ∃ (e : Fault) (t' : Ranks m (Stepper α f.setup.bins)),
      Ranks.Finish (fun i => Stepper.turnover (f.on i) (f.forces k i)) s (fun _ => .error e) t' ∧
        ∀ i, (t' i).current = c.next ∧ (t' i).mesh = mesh := by
  have htb : 0 ≤ f.setup.timeline.timebase := by
    rw [hu.timebase_eq]
    exact Int.le_of_lt hu.timebase_pos
  have hmeshed := h.meshed
  rw [h.eq] at hmeshed
  rcases Stepper.finish_allot_carryOut (w := f.writer) h.ready h.instant hu.two_le htb h.nonneg
    h.kicked hmeshed hw with ⟨b, t', ht, hran⟩ | ⟨e, t', ht, hkept⟩
  · rw [← h.eq] at hran
    refine .inl ⟨t', finish_turnover_of_ok h.lead (b := b) ?_,
      hs.of_ran hu.two_le h.eases h.meshed hran⟩
    exact (h.ticks.bind ht).congr fun i =>
    Stepper.proceed_apply_allot (f.on i) true (t i)
  · refine .inr ⟨e, t', finish_turnover_of_error h.lead ?_, hkept⟩
    exact (h.ticks.bind ht).congr fun i =>
    Stepper.proceed_apply_allot (f.on i) true (t i)

theorem strands (hi : Stepper.LacksWeights f.setup c.most (t i))
    (hj : ¬ Stepper.LacksWeights f.setup c.most (t j)) :
    ∃ e, Ranks.Strands (fun i => Stepper.turnover (f.on i) (f.forces k i)) s i j e := by
  have htb : 0 ≤ f.setup.timeline.timebase := by
    rw [hu.timebase_eq]
    exact Int.le_of_lt hu.timebase_pos
  obtain ⟨e, he⟩ := Stepper.strands_allot_carryOut
      (w := f.writer) h.ready hu.two_le htb h.nonneg h.kicked hi hj
  refine ⟨e, ?_⟩
  have hproceed : Ranks.Strands (fun i => Stepper.proceed (f.on i) true) t i j e :=
    (h.ticks.strands he).congr fun i =>
    Stepper.proceed_apply_allot (f.on i) true (t i)
  exact h.lead.strands (hproceed.bind _)

end

theorem finish_of_lacksWeights (h : f.Met k mesh s r t c)
    (hl : ∀ i, Stepper.LacksWeights f.setup c.most (t i)) :
    ∃ e, Ranks.Finish (fun i => Stepper.turnover (f.on i) (f.forces k i)) s
      (fun _ => .error e) t := by
  obtain ⟨e, he⟩ := Stepper.finish_allot_of_lacksWeights (w := f.writer) h.instant hl
  refine ⟨e, finish_turnover_of_error h.lead ?_⟩
  exact (h.ticks.bind (he.bind_error _)).congr fun i =>
    Stepper.proceed_apply_allot (f.on i) true (t i)

end Met

section Signed

variable [Scalar.Signed α] (hu : f.setup.IsMade) (ho : ¬ f.setup.config.cosmology.omega0 < 0.0)
  (hg : ¬ f.setup.config.cosmology.gravity < 0.0) (hf : ∀ k, Forces.Mild (f.forces k))

include hu ho hg hf

/-- Ranks that split in a cycle do not come to its end. -/
theorem Splits.strands (h : f.Splits k s i j) (hs : f.IsLevel s) :
    ∃ e, Ranks.Strands (f.cycle k) s i j e := by
  obtain ⟨hopen, r, t, ticks, harrives, hi, hj⟩ := h
  obtain ⟨now, mesh, hs | hs⟩ := hs
  · rcases exists_met hu ho hg (hf k) hs with ⟨r', t', c, hmet⟩ | ⟨hno, -⟩
    · obtain ⟨-, rfl⟩ := harrives.lead.unique hmet.lead
      obtain ⟨hsame, -⟩ := harrives.ticks.unique hmet.ticks
      have hmost (i : Fin (m + 1)) : ticks i = c.most := Except.ok.inj (congrFun hsame i)
      rw [hmost i] at hi
      rw [hmost j] at hj
      obtain ⟨e, he⟩ := hmet.strands hu hi hj
      have hcycle : Ranks.Strands (fun i => Stepper.openCycle (f.on i) (f.forces k i)) s i j e := by
        simp only [Stepper.openCycle]
        exact he.onFault.bind _
      exact ⟨e, hcycle.congr (cycle_apply (fun i => (hopen i).1) fun i => (hopen i).2)⟩
    · exact absurd harrives (hno r t ticks)
  · exact absurd (hs 0).2.2 (hopen 0).1

/-- A cycle of steady ranks that is not refused, and in which they do not split, ends with level
ranks. -/
theorem finish_openCycle (hs : Steady f.setup now mesh s)
    (hopen : ∀ i, ¬ Stepper.isFinished (f.on i) (s i)) (hno : ¬ ∃ i j, f.Splits k s i j) : ∃ r s',
    Ranks.Finish (f.cycle k) s r s' ∧ f.IsLevel s' ∧
      ((∀ i, ∃ b, r i = .ok b) ∨ ∃ e, ∀ i, r i = .error e) := by
  have hfail {e : Fault} {t : Ranks m (Stepper α f.setup.bins)} {now' : Tick}
      (ht : Ranks.Finish (fun i => Stepper.turnover (f.on i) (f.forces k i)) s
        (fun _ => .error e) t)
      (hkept : ∀ i, (t i).current = now' ∧ (t i).mesh = mesh) :
        ∃ r s', Ranks.Finish (f.cycle k) s r s' ∧
        f.IsLevel s' ∧ ((∀ i, ∃ b, r i = .ok b) ∨ ∃ e, ∀ i, r i = .error e) :=
    ⟨_, _, finish_cycle_of_error hs.phase hopen ht,
      ⟨now', mesh, .inr fun i => ⟨(hkept i).1, (hkept i).2, rfl⟩⟩, .inr ⟨e, fun _ => rfl⟩⟩
  rcases exists_met hu ho hg (hf k) hs with ⟨r, t, c, hmet⟩ | ⟨-, e, t, now', ht, hkept⟩
  · by_cases hw : ∀ i, ¬ Stepper.LacksWeights f.setup c.most (t i)
    · rcases hmet.finish hu hs hw with ⟨t', ht, hsteady⟩ | ⟨e, t', ht, hkept⟩
      · refine ⟨_, _, finish_cycle_of_ok hs.phase hopen ht,
          ⟨c.next, c.meshAfter f.setup mesh, .inl ?_⟩, .inl fun i => ⟨_, rfl⟩⟩
        exact ⟨⟨hsteady.counts, hsteady.phase, hsteady.current, hsteady.mesh⟩, hsteady.alike,
          hsteady.fits, hsteady.kicked, hsteady.masses, hsteady.isStep⟩
      · exact hfail ht hkept
    · -- one rank lacks weights, and so all do
      obtain ⟨i, hi⟩ := not_forall_not.1 hw
      have hl (j : Fin (m + 1)) : Stepper.LacksWeights f.setup c.most (t j) := by
        by_contra hj
        exact hno ⟨i, j, fun i => ⟨hs.phase i, hopen i⟩, r, t, _, hmet.toArrives, hi, hj⟩
      obtain ⟨e, ht⟩ := hmet.finish_of_lacksWeights hl
      exact hfail ht fun i => ⟨(hmet.ready i).current, (hmet.ready i).mesh⟩
  · exact hfail ht hkept

/-- A cycle of level ranks that do not split ends with level ranks. -/
theorem IsLevel.cycle (hs : f.IsLevel s) (hno : ¬ ∃ i j, f.Splits k s i j) : ∃ r s',
    Ranks.Finish (f.cycle k) s r s' ∧ f.IsLevel s' ∧
      ((∀ i, ∃ b, r i = .ok b) ∨ ∃ e, ∀ i, r i = .error e) := by
  obtain ⟨now, mesh, hs | hs⟩ := hs
  · by_cases hend : Stepper.isFinished (f.on 0) (s 0)
    · have hall (i : Fin (m + 1)) : Stepper.isFinished (f.on i) (s i) := by
        rw [Stepper.isFinished, Stepper.currentAbsolute, hs.current i, ← hs.current 0]
        exact hend
      refine ⟨fun _ => .error .runFinished, s, Ranks.finish_of_does fun i => ?_,
        ⟨now, mesh, .inl hs⟩, .inr ⟨_, fun _ => rfl⟩⟩
      exact Stepper.does_runCycle_of_finished (u := f.on i) (f.forces k i) (hs.phase i) (hall i)
    · refine finish_openCycle hu ho hg hf hs (fun i hi => hend ?_) hno
      rw [Stepper.isFinished, Stepper.currentAbsolute, hs.current 0, ← hs.current i]
      exact hi
  · refine ⟨fun _ => .error .runAborted, s, Ranks.finish_of_does fun i => ?_, ⟨now, mesh, .inr hs⟩,
      .inr ⟨_, fun _ => rfl⟩⟩
    exact Stepper.does_runCycle_of_aborted (f.on i) (f.forces k i) (hs i).2.2

theorem isLevel_of_reached?
    (hfresh : ∀ i, ∀ p ∈ store i, p.bin = 0 ∧ p.stepStart = 0 ∧ p.kickTick = 0)
    (hmass : ∀ i, (store i).HasMasses) (h : f.reached? store k = some s) : f.IsLevel s := by
  induction k generalizing s with
  | zero =>
    rcases f.first?_cases store with ⟨t, ht, hfirst, -, hfits⟩ | ⟨hnone, -⟩
    · cases ht.symm.trans h
      exact ⟨⟨0, 0⟩, ⟨0, 0⟩, .inl (.of_first hfirst hfits hfresh hmass)⟩
    · cases hnone.symm.trans h
  | succ k ih =>
    obtain ⟨t, ht, hs⟩ := Option.bind_eq_some_iff.1 h
    obtain ⟨o, ho', rfl⟩ := Option.map_eq_some_iff.1 hs
    by_cases hsplit : ∃ i j, f.Splits k t i j
    · obtain ⟨i, j, hsplit⟩ := hsplit
      obtain ⟨e, he⟩ := hsplit.strands hu ho hg hf (ih ht)
      cases he.outcomes?_eq_none.symm.trans ho'
    · obtain ⟨r, s', ⟨o', ho'', hr⟩, hlevel, -⟩ := (ih ht).cycle hu ho hg hf hsplit
      cases ho'.symm.trans ho''
      have hstate : (fun i => (o i).state) = s' := funext fun i => (hr i).2
      rwa [hstate]

/-- Ranks that start with fresh schedules and without negative masses keep step in every cycle in
which either all or none of them lack the weights of their due gas. Otherwise a rank that lacks them
fails, and one that does not lack them waits for it in vain. -/
theorem ranks_keep_step (hfresh : ∀ i, ∀ p ∈ store i, p.bin = 0 ∧ p.stepStart = 0 ∧ p.kickTick = 0)
    (hmass : ∀ i, ∀ p ∈ store i, ¬ p.mass < 0.0) (h : f.reached? store k = some s) :
    ((¬ ∃ i j, f.Splits k s i j) → f.KeepsStep k s) ∧
      ∀ i j, f.Splits k s i j → ∃ e, Ranks.Strands (f.cycle k) s i j e := by
  have hs := isLevel_of_reached? hu ho hg hf hfresh hmass h
  refine ⟨fun hno => ?_, fun i j hsplit => hsplit.strands hu ho hg hf hs⟩
  obtain ⟨r, s', ⟨o, ho', hr⟩, hlevel, hend⟩ := hs.cycle hu ho hg hf hno
  obtain ⟨ws, hws⟩ := Collective.exists_issues (Ranks.outcomes?_eq_some.1 ho')
  refine ⟨o, ws, ho', hws, ?_, ?_⟩
  · simp only [(hr _).1]
    exact hend
  · simp only [(hr _).2]
    exact hlevel.exists_phase

end Signed

end Fleet

theorem Fleet.ranks_keep_step_sample : ∃ s, Sample.fleet.reached? Sample.store 3 = some s ∧
    Sample.fleet.KeepsStep 3 s := by
  have hsome : (Sample.fleet.reached? Sample.store 3).isSome := by decide +kernel
  obtain ⟨s, h⟩ := Option.isSome_iff_exists.1 hsome
  have hfresh : ∀ i, ∀ p ∈ Sample.store i, p.bin = 0 ∧ p.stepStart = 0 ∧ p.kickTick = 0 := by
    intro i
    match i with
    | 0 => simp [Sample.store, Sample.particle, default, Particle.zero]
    | 1 => simp [Sample.store, Sample.particle, default, Particle.zero]
  have hmass : ∀ i, ∀ p ∈ Sample.store i, ¬ p.mass < (0.0 : Rat) := by
    intro i
    match i with
    | 0 => decide +kernel
    | 1 => decide +kernel
  refine ⟨s, h, (ranks_keep_step Sample.isMade (by decide +kernel) (by decide +kernel)
    (fun _ => Forces.mild_none) hfresh hmass h).1 ?_⟩
  rintro ⟨i, j, -, r, t, ticks, -, ⟨hcommon, -⟩, -⟩
  rw [Criterion.common?] at hcommon
  split at hcommon
  · cases hcommon
  · cases hcommon

end BlockStep

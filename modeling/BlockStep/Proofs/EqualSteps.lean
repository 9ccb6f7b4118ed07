import BlockStep.Proofs.Approach

namespace BlockStep

variable {α : Type} [Scalar α] {m : Nat}

def Ranks.Share (bin start : Int) (store : Ranks m (Store α)) : Prop :=
  ∀ i, ∀ p ∈ store i, p.bin = bin ∧ p.stepStart = start

namespace OnSchedule

variable {u : Setup α} {now next : Tick} {mesh : MeshStep} {s s' t : Ranks m (Stepper α u.bins)}
  {bin start : Int}

omit [Scalar α] in
/-- Steps that all ranks share end together, at the next due tick. -/
theorem stop_eq_of_share (h : OnSchedule u now s) (hu : u.IsMade) (hnext : IsNext u now next s)
    (hs : Ranks.Share bin start fun i => (s i).store) {i : Fin (m + 1)} {p : Particle α}
    (hp : p ∈ (s i).store) : p.slot.stop = next.toAbsolute u.timebase := by
  have hle := hnext.le_stop i p hp
  rcases hnext.attained with hepoch | ⟨j, q, hq, hstop⟩
  · -- no step goes on behind the end of its epoch
    have hbase := hu.timebase_pos
    have hend : p.slot.stop ≤ (now.epoch + 1) * u.timebase := by
      rcases h.slots with hheld | ⟨rfl, hfresh⟩
      · apply (hheld i p hp).stop_le_epoch hu.le_62
        have hstart := (hheld i p hp).start_le
        have hlt := h.lt_timebase
        have hsucc : (now.epoch + 1) * u.timebase = now.epoch * u.timebase + u.timebase := by
          rw [Int.add_mul, Int.one_mul]
        rw [Tick.toAbsolute] at hstart
        change p.slot.stepStart < (now.epoch + 1) * u.timebase
        omega
      · rw [(hfresh i p hp).stop_eq]
        show (0 : Int) ≤ (0 + 1) * u.timebase
        omega
    omega
  · have hsame : q.slot.stop = p.slot.stop := by
      obtain ⟨hbin, hstart⟩ := hs i p hp
      obtain ⟨hbin', hstart'⟩ := hs j q hq
      show q.stepStart + TickCount.cadence q.bin = p.stepStart + TickCount.cadence p.bin
      rw [hbin, hstart, hbin', hstart']
    rw [hstop, hsame]

theorem mem_active_of_share (h : OnSchedule u now s) (hu : u.IsMade) (hnext : IsNext u now next s)
    (hle : now.toAbsolute u.timebase ≤ next.toAbsolute u.timebase)
    (hs : Ranks.Share bin start fun i => (s i).store) {i : Fin (m + 1)}
    (ht : (t i).Ready u next mesh)
    (hst : (t i).store.slots = (s i).store.slots) {l : Nat} (hl : l < (t i).store.size) :
    l ∈ (t i).active := by
  obtain ⟨q, hq, hslot⟩ := Store.exists_of_slots_eq hst (Array.getElem?_eq_getElem hl)
  have hmem := Array.mem_of_getElem? hq
  have hdue := (h.due_iff hu hnext hle hmem).2 (h.stop_eq_of_share hu hnext hs hmem)
  have hbin : q.bin = (t i).store[l].bin := congrArg Slot.bin hslot
  apply (ht.lists.mem_iff l).2
  refine ⟨_, Array.getElem?_eq_getElem hl, ?_⟩
  rw [Registry.isDue, Registry.isActive, ht.marked, ← hbin]
  exact hdue

/-- Ranks that share their steps and take equal ones share these, and no particle gets more than it
asks for. -/
theorem share_of_leads (h : OnSchedule u now s) (hu : u.IsMade) (hin : InStep u now mesh s)
    (he : u.config.step.equalSteps) (hs : Ranks.Share bin start fun i => (s i).store) {c : Course α}
    {st : Ranks m (Store α)} (hst : ∀ i, (st i).slots = (s i).store.slots)
    (hc : c.Leads u now mesh s st s') :
    ∃ bin', Ranks.Share bin' (c.next.toAbsolute u.timebase) (fun i => (s' i).store) ∧
      ∀ i, ∀ p ∈ st i, TickCount.cadence bin' ≤ (c.wish u p).ticks := by
  obtain ⟨least, hleast, -⟩ := hc.agreed.equal he
  have hnext := h.isNext hu hin hc.heads.next
  have hwant (p : Particle α) : c.want u p = least := by rw [Course.want, hleast, Option.getD_some]
  have hshare (i : Fin (m + 1)) : ∀ p ∈ st i,
      p.bin = bin ∧ p.slot.stop = c.next.toAbsolute u.timebase := by
    apply Store.forall_slot (hst i)
      (P := fun s => s.bin = bin ∧ s.stop = c.next.toAbsolute u.timebase)
    intro q hq
    exact ⟨(hs i q hq).1, h.stop_eq_of_share hu hnext hs hq⟩
  have hdue {i : Fin (m + 1)} {p : Particle α} (hp : p ∈ st i) : c.isDue u.bins p :=
    (h.isDue_iff hu hin hst hc hp).2.2 (hshare i p hp).2
  refine ⟨(Assign.place u.bins (c.isActive u.bins) least bin).bin, ?_, ?_⟩
  · intro i p hp
    change p ∈ (s' i).store at hp
    rw [(hc.ran i).store] at hp
    obtain ⟨q, hq, rfl⟩ := Array.mem_map.1 hp
    have hslot : (c.after u u.bins mesh q).slot = _ := Course.slot_after q
    rw [if_pos (hdue hq), hwant q, (hshare i q hq).1, (hshare i q hq).2] at hslot
    exact ⟨congrArg Slot.bin hslot, congrArg Slot.stepStart hslot⟩
  · intro i p hp
    have hround := hc.one_lt_want hp (hdue hp)
    have hle := hc.agreed.want_le_wish hp (hdue hp)
    rw [hwant p] at hround hle
    exact Int.le_trans (Assign.cadence_place_le hround) hle

end OnSchedule

namespace Fleet

variable {f : Fleet α m} {store : Ranks m (Store α)} {k : Nat}
  {s s' : Ranks m (Stepper α f.setup.bins)}

theorem exists_share (hu : f.setup.IsMade) (hf : f.KeepsSchedule)
    (he : f.setup.config.step.equalSteps) (hfresh : ∀ i, ∀ p ∈ store i, p.slot.Fresh)
    (h : f.after? store k = some s) : ∃ bin start, Ranks.Share bin start fun i => (s i).store := by
  induction k generalizing s with
  | zero =>
    refine ⟨0, 0, ?_⟩
    intro i p hp
    change p ∈ (s i).store at hp
    rw [(isFirst_of_after? h i).store] at hp
    exact hfresh i p hp
  | succ k ih =>
    obtain ⟨t, ht, -⟩ := after?_succ.1 h
    obtain ⟨bin, start, hshare⟩ := ih ht
    obtain ⟨now, mesh, c, st, hin, hon, -, hst, hc⟩ := exists_leads hu hf hfresh ht h
    obtain ⟨bin', hshare', -⟩ := hon.share_of_leads hu hin he hshare hst hc
    exact ⟨bin', _, hshare'⟩

/-- Particles that take equal steps start and end them together. After any number of cycles all
particles of all ranks are in one bin and in steps that start at one tick, and at the next due tick
all are active; the step that they take there is no longer than any of them asks for. -/
theorem equal_steps_stay_equal (hu : f.setup.IsMade) (hf : f.KeepsSchedule)
    (he : f.setup.config.step.equalSteps)
    (hfresh : ∀ i, ∀ p ∈ store i, p.bin = 0 ∧ p.stepStart = 0) (h : f.after? store k = some s) :
    (∃ bin start, ∀ i, ∀ p ∈ (s i).store, p.bin = bin ∧ p.stepStart = start) ∧
    (∀ t, Ranks.states? (fun i => Stepper.synchronize (f.on i)) s = some t →
      ∀ i l, l < (t i).store.size → l ∈ (t i).active) ∧
    ∀ s', f.after? store (k + 1) = some s' →
      ∃ bin start r t ticks, ∃ ds : Ranks m (List (DesiredStep α)), f.Arrives k s r t ticks ∧ ∀ i,
        (∀ l, l < (t i).store.size → l ∈ (t i).active) ∧
        (Criterion.desired f.setup.config f.setup.timeline (t i).instant (t i).activeParticles
          (ticks i) (t i).current.epoch).Does (t i) (.ok (ds i)) (t i) ∧
        (ds i).length = (t i).active.length ∧ (s' i).store.size = (t i).store.size ∧
        (∀ p ∈ (s' i).store, p.bin = bin ∧ p.stepStart = start) ∧
        ∀ d ∈ ds i, TickCount.cadence bin ≤ d.ticks := by
  have hslots : ∀ i, ∀ p ∈ store i, p.slot.Fresh := hfresh
  obtain ⟨bin, start, hshare⟩ := exists_share hu hf he hslots h
  obtain ⟨now, mesh, hin, hon⟩ := exists_onSchedule hu hf hslots h
  refine ⟨⟨bin, start, hshare⟩, ?_, ?_⟩
  · intro t ht i l hl
    obtain ⟨next, hnext, hle, hready⟩ := hon.exists_isNext (w := f.writer) hu hin ht
    exact hon.mem_active_of_share hu hnext hle hshare (hready i).1
      (congrArg Store.slots (hready i).2) hl
  · intro s' h'
    obtain ⟨s₁, hs₁, hcycle⟩ := after?_succ.1 h'
    cases hs₁.symm.trans h
    obtain ⟨r, t, c, harrives, ht, hc⟩ := hin.exists_arrives hu (hf k) hcycle
    obtain ⟨bin', hshare', hle⟩ := hon.share_of_leads hu hin he hshare (fun i => (ht i).2.2) hc
    have hnext := hon.isNext hu hin hc.heads.next
    refine ⟨bin', c.next.toAbsolute f.setup.timebase, r, t, fun _ => c.most,
      fun i => (t i).activeParticles.map (c.wish f.setup), harrives, ?_⟩
    intro i
    obtain ⟨hready, hinstant, hst⟩ := ht i
    have hactive {p : Particle α} (hp : p ∈ (t i).activeParticles) :
        p ∈ (t i).store ∧ c.isDue f.setup.bins p := by
      have hmem := hready.mem_activeParticles.1 hp
      rwa [Stepper.isDue_of_marked hready.marked] at hmem
    refine ⟨fun l hl => hon.mem_active_of_share hu hnext hc.heads.le hshare hready hst hl,
      ?_, ?_, ?_, hshare' i, ?_⟩
    · rw [hinstant, hready.current]
      rcases Criterion.ends_desired (t i).activeParticles (t i) with
        ⟨ds, t', hd, rfl, -, rfl⟩ | ⟨e, t', hd, he⟩
      · exact hd
      · obtain ⟨-, p, hp, hno⟩ := he
        obtain ⟨hmem, hdue⟩ := hactive hp
        exact absurd (hc.agreed.measured i p hmem hdue) hno
    · rw [List.length_map, Stepper.activeParticles, Store.gather_eq, List.length_map]
    · rw [(hc.ran i).store, Array.size_map]
    · intro d hd
      obtain ⟨p, hp, rfl⟩ := List.mem_map.1 hd
      exact hle i p (hactive hp).1

end Fleet

namespace Sample

def equalFleet : Fleet Rat 1 := { fleet with setup := { setup with config := { config with
  step := { config.step with treeGravity := true, equalSteps := true } } } }

def unevenStore : Ranks 1 (Store Rat)
  | 0 => #[{ particle 0 with vel := ⟨0.2, 0, 0⟩ },
    { particle 1 with vel := ⟨0.2, 0, 0⟩, gravAccel := ⟨0.1, 0, 0⟩ }]
  | 1 => #[{ particle 2 with vel := ⟨0.2, 0, 0⟩, gravAccel := ⟨0.2, 0, 0⟩ }]

end Sample

theorem Fleet.equal_steps_stay_equal_sample : ∃ s s',
    Sample.equalFleet.after? Sample.unevenStore 2 = some s ∧
    Sample.equalFleet.after? Sample.unevenStore 3 = some s' ∧
    (∃ bin start, ∀ i, ∀ p ∈ (s i).store, p.bin = bin ∧ p.stepStart = start) ∧
    ∃ bin start, ∀ i, ∀ p ∈ (s' i).store, p.bin = bin ∧ p.stepStart = start := by
  have hsome : (Sample.equalFleet.after? Sample.unevenStore 3).isSome := by decide +kernel
  obtain ⟨s', h'⟩ := Option.isSome_iff_exists.1 hsome
  obtain ⟨s, h, -⟩ := after?_succ.1 h'
  have hfresh : ∀ i, ∀ p ∈ Sample.unevenStore i, p.bin = 0 ∧ p.stepStart = 0 := by
    intro i
    match i with
    | 0 => simp [Sample.unevenStore, Sample.particle, default, Particle.zero]
    | 1 => simp [Sample.unevenStore, Sample.particle, default, Particle.zero]
  have hmade : Sample.equalFleet.setup.IsMade := ⟨by decide, by decide, rfl⟩
  obtain ⟨hshare, -, hnext⟩ :=
    equal_steps_stay_equal hmade (fun _ => Forces.keepSchedule_none) rfl hfresh h
  obtain ⟨bin, start, r, t, ticks, ds, -, hi⟩ := hnext s' h'
  exact ⟨s, s', h, h', hshare, bin, start, fun i => (hi i).2.2.2.2.1⟩

end BlockStep

import BlockStep.Proofs.Fleet

namespace BlockStep

variable {α : Type} [Scalar α] {m : Nat}

structure OnSchedule (u : Setup α) (now : Tick) (s : Ranks m (Stepper α u.bins)) : Prop where
  nonneg : 0 ≤ now.localTick
  lt_timebase : now.localTick < u.timebase
  even : 2 ∣ now.toAbsolute u.timebase
  slots : (∀ i, ∀ p ∈ (s i).store, p.slot.Held u.bins (now.toAbsolute u.timebase)) ∨
    now = ⟨0, 0⟩ ∧ ∀ i, ∀ p ∈ (s i).store, p.slot.Fresh

/-- The first tick behind `now` at which a step or the epoch ends; without steps yet it is `now`. -/
structure IsNext (u : Setup α) (now next : Tick) (s : Ranks m (Stepper α u.bins)) : Prop where
  nonneg : 0 ≤ next.localTick
  lt_timebase : next.localTick < u.timebase
  even : 2 ∣ next.toAbsolute u.timebase
  le_stop : ∀ i, ∀ p ∈ (s i).store, next.toAbsolute u.timebase ≤ p.slot.stop
  le_epoch : next.toAbsolute u.timebase ≤ (now.epoch + 1) * u.timebase
  attained : next.toAbsolute u.timebase = (now.epoch + 1) * u.timebase ∨
    ∃ i, ∃ p ∈ (s i).store, next.toAbsolute u.timebase = p.slot.stop
  lt_of_held : (∀ i, ∀ p ∈ (s i).store, p.slot.Held u.bins (now.toAbsolute u.timebase)) →
    now.toAbsolute u.timebase < next.toAbsolute u.timebase

namespace OnSchedule

variable {u : Setup α} {now next : Tick} {mesh : MeshStep} {s s' : Ranks m (Stepper α u.bins)}
  {c : Course α} {st : Ranks m (Store α)}

omit [Scalar α] in
theorem dueTick_eq (h : OnSchedule u now s) (hu : u.IsMade) {i : Fin (m + 1)} {p : Particle α}
    (hp : p ∈ (s i).store) : p.slot.dueTick now u.timebase = p.slot.stop := by
  rcases h.slots with hheld | ⟨rfl, hfresh⟩
  · exact (hheld i p hp).dueTick_eq hu.le_62
  · exact (hfresh i p hp).dueTick_eq _

omit [Scalar α] in
theorem inTable (h : OnSchedule u now s) (hu : u.IsMade) (i : Fin (m + 1)) :
    ∀ p ∈ (s i).store, 0 ≤ p.bin ∧ p.bin < u.bins := by
  intro p hp
  rcases h.slots with hheld | ⟨-, hfresh⟩
  · exact ⟨Int.le_trans (by decide) (hheld i p hp).pos, (hheld i p hp).lt⟩
  · have hbins := hu.two_le
    have hzero : p.bin = 0 := (hfresh i p hp).1
    omega

omit [Scalar α] in
theorem even_stop (h : OnSchedule u now s) (hu : u.IsMade) {i : Fin (m + 1)} {p : Particle α}
    (hp : p ∈ (s i).store) : 2 ∣ p.slot.stop := by
  rcases h.slots with hheld | ⟨-, hfresh⟩
  · exact (hheld i p hp).even_stop hu.le_62
  · rw [(hfresh i p hp).stop_eq]
    exact Int.dvd_zero 2

omit [Scalar α] in
theorem isNext (h : OnSchedule u now s) (hu : u.IsMade) (hs : InStep u now mesh s)
    (he : next = Tick.ofAbsolute (Ranks.least fun i =>
      ((s i).registry.nextSync now u.timebase).toAbsolute u.timebase) u.timebase) :
    IsNext u now next s := by
  have htb := hu.timebase_pos
  have hleast := Ranks.isLeast_least fun i =>
    (hs.counts i).isLeast_nextSync h.lt_timebase (h.inTable hu i)
  have habs := Tick.toAbsolute_ofAbsolute (Ranks.least fun i =>
    ((s i).registry.nextSync now u.timebase).toAbsolute u.timebase) u.timebase
  rw [← he] at habs
  rw [← habs] at hleast
  have hlocal : 0 ≤ next.localTick ∧ next.localTick < u.timebase := by
    rw [he]
    exact ⟨Int.fmod_nonneg_of_pos _ htb, Int.fmod_lt_of_pos _ htb⟩
  have hattained : next.toAbsolute u.timebase = (now.epoch + 1) * u.timebase ∨
      ∃ i, ∃ p ∈ (s i).store, next.toAbsolute u.timebase = p.slot.stop := by
    obtain ⟨i, hi | ⟨p, hp, hi⟩⟩ := hleast.1
    · exact .inl hi
    · exact .inr ⟨i, p, hp, hi.trans (h.dueTick_eq hu hp)⟩
  refine ⟨hlocal.1, hlocal.2, ?_, fun i p hp => ?_, hleast.2 ⟨0, .inl rfl⟩, hattained,
    fun hheld => ?_⟩
  · rcases hattained with hi | ⟨i, p, hp, hi⟩
    · rw [hi]
      exact Int.dvd_mul_of_dvd_right hu.even_timebase
    · rw [hi]
      exact h.even_stop hu hp
  · rw [← h.dueTick_eq hu hp]
    exact hleast.2 ⟨i, .inr ⟨p, hp, rfl⟩⟩
  · rcases hattained with hi | ⟨i, p, hp, hi⟩
    · have hlt := h.lt_timebase
      rw [hi, Int.add_mul, Int.one_mul, Tick.toAbsolute]
      omega
    · rw [hi]
      exact (hheld i p hp).lt_stop

omit [Scalar α] in
theorem le_of_isNext (h : OnSchedule u now s) (hnext : IsNext u now next s) :
    now.toAbsolute u.timebase ≤ next.toAbsolute u.timebase := by
  rcases h.slots with hheld | ⟨rfl, hfresh⟩
  · exact Int.le_of_lt (hnext.lt_of_held hheld)
  · rw [Tick.toAbsolute_zero]
    rcases hnext.attained with hepoch | ⟨i, p, hp, hstop⟩
    · have hbase := h.lt_timebase
      rw [hepoch]
      exact Int.le_of_lt (by simpa using hbase)
    · rw [hstop, (hfresh i p hp).stop_eq]

end OnSchedule

theorem Registry.dueMask_dvd (n : Nat) (next : Tick) (b : Nat) :
    (dueMask n next.localTick)[b]?.getD false ↔
      b < n ∧ (b = 0 ∨ (pow2 b : Int) ∣ next.toAbsolute (pow2 (n - 1))) := by
  rw [getD_dueMask]
  refine and_congr_right fun hb => or_congr_right ?_
  have hd : (pow2 b : Int) ∣ next.epoch * pow2 (n - 1) :=
    Int.dvd_mul_of_dvd_right (natCast_pow2_dvd (Nat.le_sub_one_of_lt hb))
  exact (Int.dvd_add_right hd).symm

omit [Scalar α] in
theorem Registry.dueMask_iff (u : Setup α) (next : Tick) (b : Nat) :
    (dueMask u.bins next.localTick)[b]?.getD false ↔
      b < u.bins ∧ (b = 0 ∨ (pow2 b : Int) ∣ next.toAbsolute u.timebase) :=
  dueMask_dvd u.bins next b

namespace Course

variable {u : Setup α} {now : Tick} {mesh : MeshStep} {s s' : Ranks m (Stepper α u.bins)}
  {c : Course α} {st : Ranks m (Store α)}

omit [Scalar α] in
theorem exists_mem (hst : ∀ i, (st i).slots = (s i).store.slots) (h : ∃ i, ∃ p, p ∈ (s i).store) :
    ∃ i, ∃ p, p ∈ st i := by
  obtain ⟨i, p, hp⟩ := h
  obtain ⟨l, hl⟩ := Array.getElem?_of_mem hp
  obtain ⟨q, hq, -⟩ := Store.exists_of_slots_eq (hst i).symm hl
  exact ⟨i, q, Array.mem_of_getElem? hq⟩

theorem Leads.one_lt_want (h : c.Leads u now mesh s st s') {i : Fin (m + 1)} {p : Particle α}
    (hp : p ∈ st i) (hd : c.isDue u.bins p) : 1 < TickCount.roundDown (c.want u p) :=
  (not_isFault_of_faults h.faultless hp hd).2

theorem Leads.turnsTo (h : c.Leads u now mesh s st s') {i : Fin (m + 1)} {p : Particle α}
    (hp : p ∈ st i) : p.slot.TurnsTo u.bins (c.isActive u.bins) (· = c.want u p)
      (c.after u u.bins mesh p).slot := by
  rw [Slot.TurnsTo, slot_after]
  by_cases hd : c.isActive u.bins p.slot.bin.toNat
  · rw [if_pos hd, if_pos (show c.isDue u.bins p from hd)]
    exact ⟨_, rfl, h.one_lt_want hp hd, rfl⟩
  · rw [if_neg hd, if_neg (show ¬ c.isDue u.bins p from hd)]

end Course

namespace OnSchedule

variable {u : Setup α} {now : Tick} {mesh : MeshStep} {s s' : Ranks m (Stepper α u.bins)}
  {c : Course α} {st : Ranks m (Store α)}

omit [Scalar α] in
theorem slot_cases (h : OnSchedule u now s) (hnext : IsNext u now next s)
    (hle : now.toAbsolute u.timebase ≤ next.toAbsolute u.timebase) {i : Fin (m + 1)}
    {p : Particle α}
    (hp : p ∈ (s i).store) :
    (p.slot.Held u.bins (now.toAbsolute u.timebase) ∨
      p.slot.Fresh ∧ now.toAbsolute u.timebase = 0 ∧ next.toAbsolute u.timebase = 0) ∧
    (p.slot.Held u.bins (now.toAbsolute u.timebase) →
      now.toAbsolute u.timebase < next.toAbsolute u.timebase) := by
  rcases h.slots with hheld | ⟨rfl, hfresh⟩
  · exact ⟨.inl (hheld i p hp), fun _ => hnext.lt_of_held hheld⟩
  · have hf := hfresh i p hp
    have hstop := hnext.le_stop i p hp
    rw [hf.stop_eq] at hstop
    have hzero := Tick.toAbsolute_zero u.timebase
    refine ⟨.inr ⟨hf, hzero, by omega⟩, fun hh => ?_⟩
    have hpos := hh.pos
    rw [hf.1] at hpos
    omega

omit [Scalar α] in
theorem dvd_stop (h : OnSchedule u now s) (hu : u.IsMade)
    (hst : ∀ i, (st i).slots = (s i).store.slots)
    {i : Fin (m + 1)} {p : Particle α} (hp : p ∈ st i) :
    p.bin = 0 ∨ (pow2 p.bin.toNat : Int) ∣ p.slot.stop := by
  refine Store.forall_slot (hst i) (P := fun s => s.bin = 0 ∨ (pow2 s.bin.toNat : Int) ∣ s.stop)
    (fun q hq => ?_) p hp
  rcases h.slots with hheld | ⟨-, hfresh⟩
  · exact .inr ((hheld i q hq).dvd_stop hu.le_62)
  · exact .inl (hfresh i q hq).1

omit [Scalar α] in
theorem bin_nonneg (h : OnSchedule u now s) (hu : u.IsMade)
    (hst : ∀ i, (st i).slots = (s i).store.slots)
    {i : Fin (m + 1)} {p : Particle α} (hp : p ∈ st i) : 0 ≤ p.bin := by
  exact Store.forall_slot (hst i) (P := fun s => 0 ≤ s.bin)
    (fun q hq => (h.inTable hu i q hq).1) p hp

omit [Scalar α] in
/-- At the next due tick the bins that are due are those of the steps that end there. -/
theorem due_iff (h : OnSchedule u now s) (hu : u.IsMade) (hnext : IsNext u now next s)
    (hle : now.toAbsolute u.timebase ≤ next.toAbsolute u.timebase) {i : Fin (m + 1)}
    {p : Particle α}
    (hp : p ∈ (s i).store) : (Registry.dueMask u.bins next.localTick)[p.bin.toNat]?.getD false ↔
      p.slot.stop = next.toAbsolute u.timebase := by
  obtain ⟨hcases, hlt⟩ := h.slot_cases hnext hle hp
  exact Slot.Held.active_iff
    (f := fun b => (Registry.dueMask u.bins next.localTick)[b]?.getD false) hcases
      hu.two_le hu.le_62
    hlt (hnext.le_stop i p hp) (Registry.dueMask_iff u next)

/-- When new steps are taken no step has been passed, and those of the due particles end. -/
theorem isDue_iff (h : OnSchedule u now s) (hu : u.IsMade) (hs : InStep u now mesh s)
    (hst : ∀ i, (st i).slots = (s i).store.slots) (hc : c.Leads u now mesh s st s')
    {i : Fin (m + 1)} {p : Particle α} (hp : p ∈ st i) :
    c.next.toAbsolute u.timebase ≤ p.slot.stop ∧
      (c.isDue u.bins p ↔ p.slot.stop = c.next.toAbsolute u.timebase) := by
  have hnext := h.isNext hu hs hc.heads.next
  exact Store.forall_slot (hst i) (P := fun s => c.next.toAbsolute u.timebase ≤ s.stop ∧
    (c.isActive u.bins s.bin.toNat ↔ s.stop = c.next.toAbsolute u.timebase))
    (fun q hq => ⟨hnext.le_stop i q hq, h.due_iff hu hnext hc.heads.le hq⟩) p hp

/-- Every particle comes out of a cycle inside a step, which is new if the old one has ended. -/
theorem turn (h : OnSchedule u now s) (hu : u.IsMade) (hs : InStep u now mesh s)
    (hst : ∀ i, (st i).slots = (s i).store.slots) (hc : c.Leads u now mesh s st s')
    {i : Fin (m + 1)} {p : Particle α} (hp : p ∈ st i) :
    (c.after u u.bins mesh p).slot.Held u.bins (c.next.toAbsolute u.timebase) ∧
      (p.slot.stop = c.next.toAbsolute u.timebase →
        (c.after u u.bins mesh p).stepStart = c.next.toAbsolute u.timebase) := by
  have hnext := h.isNext hu hs hc.heads.next
  obtain ⟨⟨hcases, hlt⟩, hstop⟩ := Store.forall_slot (hst i) (P := fun s =>
    ((s.Held u.bins (now.toAbsolute u.timebase) ∨
      s.Fresh ∧ now.toAbsolute u.timebase = 0 ∧ c.next.toAbsolute u.timebase = 0) ∧
    (s.Held u.bins (now.toAbsolute u.timebase) →
      now.toAbsolute u.timebase < c.next.toAbsolute u.timebase)) ∧
    c.next.toAbsolute u.timebase ≤ s.stop)
    (fun q hq => ⟨h.slot_cases hnext hc.heads.le hq, hnext.le_stop i q hq⟩) p hp
  exact Slot.Held.turn hcases hu.two_le hu.le_62 hc.heads.le hlt hstop
    (Registry.dueMask_iff u c.next) (hc.turnsTo hp)

/-- After a cycle ranks are on schedule, and every particle has a step. -/
theorem held (h : OnSchedule u now s) (hu : u.IsMade) (hs : InStep u now mesh s)
    (hst : ∀ i, (st i).slots = (s i).store.slots) (hc : c.Leads u now mesh s st s')
    (i : Fin (m + 1)) : ∀ p ∈ (s' i).store, p.slot.Held u.bins (c.next.toAbsolute u.timebase) := by
  intro p hp
  rw [(hc.ran i).store] at hp
  obtain ⟨q, hq, rfl⟩ := Array.mem_map.1 hp
  exact (h.turn hu hs hst hc hq).1

theorem leads (h : OnSchedule u now s) (hu : u.IsMade) (hs : InStep u now mesh s)
    (hst : ∀ i, (st i).slots = (s i).store.slots) (hc : c.Leads u now mesh s st s') :
    OnSchedule u c.next s' where
  nonneg := (h.isNext hu hs hc.heads.next).nonneg
  lt_timebase := (h.isNext hu hs hc.heads.next).lt_timebase
  even := (h.isNext hu hs hc.heads.next).even
  slots := .inl (h.held hu hs hst hc)

omit [Scalar α] in
theorem of_first (hu : u.IsMade) {store : Ranks m (Store α)} (h : ∀ i, (s i).IsFirst (store i))
    (hfresh : ∀ i, ∀ p ∈ store i, p.slot.Fresh) : OnSchedule u ⟨0, 0⟩ s where
  nonneg := Int.le_refl 0
  lt_timebase := hu.timebase_pos
  even := by
    rw [Tick.toAbsolute_zero]
    exact Int.dvd_zero 2
  slots := by
    refine .inr ⟨rfl, fun i p hp => hfresh i p ?_⟩
    rwa [(h i).store] at hp

theorem exists_isNext {w : Ranks m (Option SnapshotWriter)} (h : OnSchedule u now s) (hu : u.IsMade)
    (hs : InStep u now mesh s)
    (hsync : Ranks.states? (fun i => Stepper.synchronize { u with writer := w i }) s = some s') :
    ∃ next, IsNext u now next s ∧ now.toAbsolute u.timebase ≤ next.toAbsolute u.timebase ∧
      ∀ i, (s' i).Ready u next mesh ∧ (s' i).store = (s i).store := by
  obtain ⟨_, hready⟩ := (Stepper.joint_synchronize (A := fun _ => True) (E := fun _ => True)
    hs.current hs.mesh (fun _ => trivial) (fun _ _ => trivial) (fun _ _ _ _ => trivial)
    (Int.ne_of_gt hu.timebase_pos) rfl).of_states? hsync
  exact ⟨_, h.isNext hu hs rfl, (hready 0).2.1, fun i => (hready i).2.2⟩

end OnSchedule

namespace Fleet

variable {f : Fleet α m} {store : Ranks m (Store α)} {k : Nat}
  {s s' : Ranks m (Stepper α f.setup.bins)}

/-- Before and after every cycle the ranks of a run are in step and on schedule. -/
theorem exists_onSchedule (hu : f.setup.IsMade) (hf : f.KeepsSchedule)
    (hfresh : ∀ i, ∀ p ∈ store i, p.slot.Fresh) (h : f.after? store k = some s) :
    ∃ now mesh, InStep f.setup now mesh s ∧ OnSchedule f.setup now s := by
  induction k generalizing s with
  | zero =>
    have hfirst := isFirst_of_after? h
    exact ⟨_, _, InStep.of_first hfirst, OnSchedule.of_first hu hfirst hfresh⟩
  | succ k ih =>
    obtain ⟨t, ht, hs⟩ := after?_succ.1 h
    obtain ⟨now, mesh, hin, hon⟩ := ih ht
    obtain ⟨_, -, c, st, hst, hc⟩ := (hin.joint_cycle hu hf).of_states? hs
    exact ⟨_, _, InStep.of_leads hc, hon.leads hu hin hst hc⟩

theorem exists_leads (hu : f.setup.IsMade) (hf : f.KeepsSchedule)
    (hfresh : ∀ i, ∀ p ∈ store i, p.slot.Fresh) (h : f.after? store k = some s)
    (h' : f.after? store (k + 1) = some s') : ∃ now mesh, ∃ (c : Course α) (st : Ranks m (Store α)),
      InStep f.setup now mesh s ∧ OnSchedule f.setup now s ∧
        now.toAbsolute f.setup.timebase < f.setup.timeline.endTick ∧
        (∀ i, (st i).slots = (s i).store.slots) ∧ c.Leads f.setup now mesh s st s' := by
  obtain ⟨now, mesh, hin, hon⟩ := exists_onSchedule hu hf hfresh h
  obtain ⟨t, ht, hs⟩ := after?_succ.1 h'
  cases ht.symm.trans h
  obtain ⟨_, hend, c, st, hst, hc⟩ := (hin.joint_cycle hu hf).of_states? hs
  exact ⟨now, mesh, c, st, hin, hon, hend, hst, hc⟩

theorem slot_held (hu : f.setup.IsMade) (hf : f.KeepsSchedule)
    (hfresh : ∀ i, ∀ p ∈ store i, p.slot.Fresh) (h : f.after? store (k + 1) = some s)
    (i : Fin (m + 1)) :
    ∀ p ∈ (s i).store, p.slot.Held f.setup.bins ((s i).currentAbsolute f.setup) := by
  obtain ⟨t, ht, -⟩ := after?_succ.1 h
  obtain ⟨now, mesh, c, st, hin, hon, -, hst, hc⟩ := exists_leads hu hf hfresh ht h
  rw [Stepper.currentAbsolute, (hc.ran i).current]
  exact hon.held hu hin hst hc i

end Fleet

end BlockStep

import BlockStep.Proofs.Abort

namespace BlockStep

variable {α : Type} [Scalar α] {m : Nat}

/-- Steps of particles end with the mesh step at the latest. -/
structure UnderMesh (u : Setup α) (mesh : MeshStep) (s : Ranks m (Stepper α u.bins)) : Prop where
  isStep : TickCount.IsStep mesh.step
  step_le : mesh.step ≤ u.timebase
  stop_le : ∀ i, ∀ p ∈ (s i).store, p.slot.stop ≤ mesh.stop

/-- A mesh step of `2 ^ b` ticks starts at an odd multiple of `2 ^ v`, where `v < b`. Particles
start it with steps of `2 ^ v` ticks, and take longer ones after that. -/
structure Astray (u : Setup α) (now : Int) (mesh : MeshStep) (v b : Nat)
    (s : Ranks m (Stepper α u.bins)) : Prop where
  lt : v < b
  lt_bins : b < u.bins
  step_eq : mesh.step = pow2 b
  dvd : (pow2 v : Int) ∣ mesh.start
  not_dvd : ¬ (pow2 (v + 1) : Int) ∣ mesh.start
  slots : (now = mesh.start ∧ ∀ i, ∀ p ∈ (s i).store, p.bin = v ∧ p.stepStart = now) ∨
    (pow2 (v + 1) : Int) ∣ now ∧ ∀ i, ∀ p ∈ (s i).store, (v : Int) + 1 ≤ p.bin

theorem exists_pow2_dvd {t : Int} {b : Nat} (h : ¬ (pow2 b : Int) ∣ t) :
    ∃ v < b, (pow2 v : Int) ∣ t ∧ ¬ (pow2 (v + 1) : Int) ∣ t := by
  induction b with
  | zero => exact absurd (Int.one_dvd t) h
  | succ b ih =>
    by_cases hb : (pow2 b : Int) ∣ t
    · exact ⟨b, Nat.lt_succ_self b, hb, h⟩
    · obtain ⟨v, hv, hdvd⟩ := ih hb
      exact ⟨v, Nat.lt_succ_of_lt hv, hdvd⟩

theorem dvd_add_pow2 {t : Int} {v : Nat} (h : (pow2 v : Int) ∣ t)
    (h' : ¬ (pow2 (v + 1) : Int) ∣ t) :
    (pow2 (v + 1) : Int) ∣ t + pow2 v := by
  obtain ⟨k, rfl⟩ := h
  rw [pow2_succ, Int.natCast_mul] at h' ⊢
  rcases Int.emod_two_eq k with h0 | h1
  · obtain ⟨j, rfl⟩ := Int.dvd_of_emod_eq_zero h0
    exact absurd ⟨j, by grind⟩ h'
  · obtain ⟨j, rfl⟩ : ∃ j, k = 2 * j + 1 := ⟨k / 2, by omega⟩
    exact ⟨j + 1, by grind⟩

namespace Assign

variable {n : Nat} {f : Nat → Bool} {desired current : Int}

theorem le_place {a : Nat} (hd : 1 < TickCount.roundDown desired)
    (ha : (a : Int) ≤ candidate n desired)
    (h : (a : Int) ≤ current ∨ f a) : (a : Int) ≤ (place n f desired current).bin := by
  have hnf : ¬ isFault (TickCount.roundDown desired) := by
    simp only [isFault, decide_eq_true_eq]
    omega
  by_cases hg : grows n desired current
  · simp only [place, if_neg hnf, if_pos hg]
    rcases h with h | h
    · exact Int.le_trans h (Int.le_max_right _ _)
    · refine Int.le_trans (le_highestActive h ?_) (Int.le_max_left _ _)
      omega
  · simp only [place, if_neg hnf, if_neg hg]
    exact ha

theorem le_place_pow2 {a b : Nat} (hd : 1 < TickCount.roundDown (pow2 b)) (hb : b < n)
    (h62 : b ≤ 62)
    (hab : a ≤ b) (h : f a) : (a : Int) ≤ (place n f (pow2 b) current).bin := by
  refine le_place hd ?_ (.inr h)
  rw [candidate, TickCount.roundDown_pow2 h62, TickCount.binOf_pow2 h62]
  omega

end Assign

namespace Course

variable {u : Setup α} {now : Tick} {mesh : MeshStep} {s s' : Ranks m (Stepper α u.bins)}
  {c : Course α} {st : Ranks m (Store α)}

theorem Leads.isStep_most [Scalar.Ordered α] (hu : u.IsMade) (hc : c.Leads u now mesh s st s')
    (hstep : TickCount.IsStep mesh.step) (hle : mesh.step ≤ u.timebase) :
    TickCount.IsStep c.most ∧ c.most ≤ u.timebase := by
  by_cases ha : c.atMesh u mesh
  · have hticks := hc.agreed.renewed ha
    have hmost := hu.timebase_le
    rw [← hu.timebase_eq] at hmost ⊢
    have hpos := hu.timebase_pos
    rw [← hu.timebase_eq] at hpos
    exact ⟨MeshStep.isStep_of_ticksOf hticks,
      MeshStep.ticksOf_le (Int.le_of_lt hpos) hmost hticks⟩
  · rw [hc.agreed.kept ha]
    exact ⟨hstep, hle⟩

theorem bin_after {p : Particle α} (hd : c.isDue u.bins p) : (c.after u u.bins mesh p).bin =
    (Assign.place u.bins (c.isActive u.bins) (c.want u p) p.bin).bin := by
  have hslot : (c.after u u.bins mesh p).slot = _ := slot_after p
  rw [if_pos hd] at hslot
  exact congrArg Slot.bin hslot

theorem Leads.pow2_le_most [Scalar.Ordered α] (hu : u.IsMade) (hc : c.Leads u now mesh s st s')
    (hstep : TickCount.IsStep c.most) (hle : c.most ≤ u.timebase) {i : Fin (m + 1)} {p : Particle α}
    (hp : p ∈ st i) (hd : c.isDue u.bins p) (h0 : 0 ≤ p.bin) :
    (pow2 (c.after u u.bins mesh p).bin.toNat : Int) ≤ c.most := by
  have h0' : 0 ≤ c.most := by
    rcases hstep with hz | ⟨b, -, hb⟩
    · omega
    · omega
  have hwant := hc.agreed.want_le h0' (Int.le_trans hle hu.timebase_le) hp hd
  have hlt := hc.one_lt_want hp hd
  obtain ⟨b, hb, -, -, hround, -⟩ :=
    Assign.place_spec (f := c.isActive u.bins) (n := u.bins) hu.two_le hlt h0
  rw [bin_after hd, hb, Int.toNat_natCast]
  have hpos : 0 ≤ c.want u p := by
    by_cases hneg : 0 ≤ c.want u p
    · exact hneg
    · rw [TickCount.roundDown_of_not_pos (by omega)] at hlt
      omega
  exact Int.le_trans hround (Int.le_trans (TickCount.roundDown_le hpos) hwant)

end Course

namespace UnderMesh

variable {u : Setup α} {now : Tick} {mesh : MeshStep} {s s' : Ranks m (Stepper α u.bins)}
  {c : Course α} {st : Ranks m (Store α)}

omit [Scalar α] in
theorem next_le {next : Tick} (h : UnderMesh u mesh s) (hnext : IsNext u now next s)
    (hp : ∃ i, ∃ p, p ∈ (s i).store) : next.toAbsolute u.timebase ≤ mesh.stop := by
  obtain ⟨i, p, hp⟩ := hp
  exact Int.le_trans (hnext.le_stop i p hp) (h.stop_le i p hp)

omit [Scalar α] in
theorem stop_le_of_slots (h : UnderMesh u mesh s) (hst : ∀ i, (st i).slots = (s i).store.slots)
    {i : Fin (m + 1)} {p : Particle α} (hp : p ∈ st i) : p.slot.stop ≤ mesh.stop :=
  Store.forall_slot (hst i) (P := fun s => s.stop ≤ mesh.stop) (h.stop_le i) p hp

section Cycle

variable (h : UnderMesh u mesh s) (hu : u.IsMade) (hin : InStep u now mesh s)
  (hon : OnSchedule u now s) (hst : ∀ i, (st i).slots = (s i).store.slots)
  (hc : c.Leads u now mesh s st s')

include h hu hin hon hst hc

theorem isDue_of_atMesh (ha : c.next.toAbsolute u.timebase = mesh.stop) {i : Fin (m + 1)}
    {p : Particle α} (hp : p ∈ st i) : c.isDue u.bins p := by
  obtain ⟨hle, hiff⟩ := hon.isDue_iff hu hin hst hc hp
  have hstop := h.stop_le_of_slots hst hp
  exact hiff.2 (by omega)

/-- A mesh step that begins is one under which all steps end. -/
theorem renewed [Scalar.Ordered α] (ha : c.next.toAbsolute u.timebase = mesh.stop)
    (hp : ∃ i, ∃ p, p ∈ (s i).store) :
    UnderMesh u (c.meshAfter u mesh) s' ∧ c.meshAfter u mesh = ⟨mesh.stop, c.most⟩ ∧
      0 < c.most := by
  have hafter : c.meshAfter u mesh = ⟨mesh.stop, c.most⟩ := if_pos (beq_iff_eq.2 ha)
  obtain ⟨hstep, hle⟩ := hc.isStep_most hu h.isStep h.step_le
  have hlength {i : Fin (m + 1)} {p : Particle α} (hp : p ∈ st i) (hd : c.isDue u.bins p) :=
    hc.pow2_le_most hu hstep hle hp hd (hon.bin_nonneg hu hst hp)
  have hdue {i : Fin (m + 1)} {p : Particle α} (hp : p ∈ st i) : c.isDue u.bins p :=
    h.isDue_of_atMesh hu hin hon hst hc ha hp
  rw [hafter]
  refine ⟨⟨hstep, hle, fun i q hq => ?_⟩, rfl, ?_⟩
  · rw [(hc.ran i).store] at hq
    obtain ⟨p, hp, rfl⟩ := Array.mem_map.1 hq
    obtain ⟨hheld, hstart⟩ := hon.turn hu hin hst hc hp
    have hstop := (hon.isDue_iff hu hin hst hc hp).2.1 (hdue hp)
    have hlen := hlength hp (hdue hp)
    rw [hheld.stop_eq hu.le_62]
    show (c.after u u.bins mesh p).stepStart + _ ≤ mesh.stop + c.most
    rw [hstart hstop, ha]
    exact Int.add_le_add_left hlen _
  · obtain ⟨i, p, hp⟩ := Course.exists_mem hst hp
    have hlen := hlength hp (hdue hp)
    have hpos := pow2_pos (c.after u u.bins mesh p).bin.toNat
    omega

/-- Under a mesh step that starts at a multiple of its length all steps go on to end with it. -/
theorem kept [Scalar.Ordered α] (hdvd : mesh.step ∣ mesh.start)
    (ha : c.next.toAbsolute u.timebase < mesh.stop)
    (hstart : mesh.start ≤ c.next.toAbsolute u.timebase) :
    UnderMesh u (c.meshAfter u mesh) s' ∧ c.meshAfter u mesh = mesh := by
  have hat : ¬ c.atMesh u mesh := fun hat => absurd (beq_iff_eq.1 hat) (Int.ne_of_lt ha)
  have hafter : c.meshAfter u mesh = mesh := if_neg hat
  have hmost := hc.agreed.kept hat
  rw [hafter]
  refine ⟨⟨h.isStep, h.step_le, fun i q hq => ?_⟩, rfl⟩
  rw [(hc.ran i).store] at hq
  obtain ⟨p, hp, rfl⟩ := Array.mem_map.1 hq
  obtain ⟨hheld, hturn⟩ := hon.turn hu hin hst hc hp
  by_cases hd : c.isDue u.bins p
  · have hlen := hc.pow2_le_most hu (hmost ▸ h.isStep) (hmost ▸ h.step_le) hp hd
      (hon.bin_nonneg hu hst hp)
    have hbegin := hturn ((hon.isDue_iff hu hin hst hc hp).2.1 hd)
    -- both lengths are powers of two, so the end of the mesh step is a multiple of the new one
    obtain ⟨b, -, hb⟩ := h.isStep.resolve_left fun hz => by
      rw [MeshStep.stop, hz] at ha
      omega
    rw [hmost, hb] at hlen
    have hdvdStep : (pow2 (c.after u u.bins mesh p).bin.toNat : Int) ∣ mesh.step := by
      rw [hb]
      exact natCast_pow2_dvd (le_of_pow2_le (Int.ofNat_le.1 hlen))
    refine hheld.stop_le_of_dvd hu.le_62 (Int.lt_of_le_of_lt (Int.le_of_eq hbegin) ha) ?_
    exact Int.dvd_add (Int.dvd_trans hdvdStep hdvd) hdvdStep
  · rw [Course.slot_after, if_neg hd]
    exact h.stop_le_of_slots hst hp

/-- From a mesh step that starts at a multiple of its length ranks come to be inside a mesh step. -/
theorem leads [Scalar.Ordered α] (hdvd : mesh.step ∣ mesh.start)
    (hstart : mesh.start ≤ now.toAbsolute u.timebase) (hp : ∃ i, ∃ p, p ∈ (s i).store) :
    UnderMesh u (c.meshAfter u mesh) s' ∧
      (c.meshAfter u mesh).start ≤ c.next.toAbsolute u.timebase ∧
        c.next.toAbsolute u.timebase < (c.meshAfter u mesh).stop := by
  have hle := h.next_le (hon.isNext hu hin hc.heads.next) hp
  by_cases ha : c.next.toAbsolute u.timebase = mesh.stop
  · obtain ⟨hunder, hafter, hpos⟩ := h.renewed hu hin hon hst hc ha hp
    refine ⟨hunder, ?_, ?_⟩
    · rw [hafter, ha]
    · rw [hafter, ha]
      show mesh.stop < mesh.stop + c.most
      omega
  · have hbefore := Int.le_trans hstart hc.heads.le
    obtain ⟨hunder, hafter⟩ := h.kept hu hin hon hst hc hdvd (by omega) hbefore
    rw [hafter] at hunder ⊢
    exact ⟨hunder, hbefore, by omega⟩

end Cycle

end UnderMesh

namespace Astray

variable {u : Setup α} {now : Tick} {mesh : MeshStep} {v b : Nat}
  {s s' : Ranks m (Stepper α u.bins)} {c : Course α} {st : Ranks m (Store α)}

omit [Scalar α] in
theorem ne_stop_of_dvd {t t' : Int} (h : Astray u t mesh v b s) (hd : (pow2 (v + 1) : Int) ∣ t') :
    t' ≠ mesh.stop := by
  rintro rfl
  have hvb : (pow2 (v + 1) : Int) ∣ pow2 b := natCast_pow2_dvd h.lt
  rw [MeshStep.stop, h.step_eq] at hd
  exact h.not_dvd ((Int.dvd_add_left hvb).1 hd)

omit [Scalar α] in
theorem ne_stop {t : Int} (h : Astray u t mesh v b s) : t ≠ mesh.stop := by
  rcases h.slots with ⟨ht, -⟩ | ⟨hd, -⟩
  · rw [ht, MeshStep.stop, h.step_eq]
    have hpos := pow2_pos b
    omega
  · exact h.ne_stop_of_dvd hd

theorem le_of_not_dvd {t : Int} {x : Nat} (h : ¬ (pow2 (v + 1) : Int) ∣ t)
    (hx : x = 0 ∨ (pow2 x : Int) ∣ t) : x ≤ v := by
  rcases hx with rfl | hx
  · exact Nat.zero_le v
  · exact Nat.le_of_not_lt fun hlt => h (Int.dvd_trans (natCast_pow2_dvd hlt) hx)

section Cycle

variable (htree : u.config.step.treeGravity = false) (hu : u.IsMade) (hin : InStep u now mesh s)
  (hon : OnSchedule u now s) (hst : ∀ i, (st i).slots = (s i).store.slots)
  (hc : c.Leads u now mesh s st s')

include htree hu hon hst hc

/-- Where `2 ^ (v + 1)` does not divide the tick, particles that ask for more get steps of `2 ^
v`. -/
theorem bin_after_eq [Scalar.Ordered α] (hmost : c.most = pow2 b) (hb : b < u.bins) (hvb : v ≤ b)
    (hdvd : (pow2 v : Int) ∣ c.next.toAbsolute u.timebase)
    (hnot : ¬ (pow2 (v + 1) : Int) ∣ c.next.toAbsolute u.timebase) {i : Fin (m + 1)}
    {p : Particle α}
    (hp : p ∈ st i) (hd : c.isDue u.bins p) (hstop : p.slot.stop = c.next.toAbsolute u.timebase) :
    (c.after u u.bins mesh p).bin = v := by
  have h62 := hu.le_62
  have hwant : c.want u p = pow2 b := by
    have hpos := pow2_pos b
    rw [hc.agreed.want_eq htree (by omega) (.inr ⟨b, by omega, hmost⟩) hp hd, hmost]
  have hround : 1 < TickCount.roundDown (c.want u p) := hc.one_lt_want hp hd
  have hactive (x : Nat) : c.isActive u.bins x ↔
      x < u.bins ∧ (x = 0 ∨ (pow2 x : Int) ∣ c.next.toAbsolute u.timebase) :=
    Registry.dueMask_iff u c.next x
  have hbin0 := hon.bin_nonneg hu hst hp
  have hbin : p.bin.toNat ≤ v := by
    refine le_of_not_dvd hnot ?_
    rw [← hstop]
    exact (hon.dvd_stop hu hst hp).imp_left fun h0 => by rw [h0]; rfl
  rw [Course.bin_after hd]
  obtain ⟨x, hx, -, -, -, hgrow, -⟩ :=
    Assign.place_spec (f := c.isActive u.bins) (n := u.bins) hu.two_le hround hbin0
  have hhigh : x ≤ v := by
    rcases hgrow with hle | hf
    · omega
    · exact le_of_not_dvd hnot ((hactive x).1 hf).2
  have hlow : (v : Int) ≤ (Assign.place u.bins (c.isActive u.bins) (c.want u p) p.bin).bin := by
    rw [hwant] at hround ⊢
    exact Assign.le_place_pow2 hround hb (by omega) hvb ((hactive v).2 ⟨by omega, .inr hdvd⟩)
  omega

include hin

theorem begins [Scalar.Ordered α] (h : UnderMesh u mesh s)
    (ha : c.next.toAbsolute u.timebase = mesh.stop) (hp : ∃ i, ∃ p, p ∈ (s i).store)
    (hnot : ¬ c.most ∣ mesh.stop) :
    ∃ v b, Astray u (c.next.toAbsolute u.timebase) (c.meshAfter u mesh) v b s' := by
  obtain ⟨hunder, hafter, hpos⟩ := h.renewed hu hin hon hst hc ha hp
  obtain ⟨hstep, hle⟩ := hc.isStep_most hu h.isStep h.step_le
  obtain ⟨b, -, hb⟩ := hstep.resolve_left (Int.ne_of_gt hpos)
  have hbn : b < u.bins := by
    have hbins := hu.two_le
    have hb' : b ≤ u.bins - 1 := by
      rw [hb] at hle
      exact le_of_pow2_le (Int.ofNat_le.1 hle)
    omega
  rw [hb] at hnot
  obtain ⟨v, hvb, hv, hv'⟩ := exists_pow2_dvd hnot
  rw [hafter]
  refine ⟨v, b, ⟨hvb, hbn, hb, hv, hv', .inl ⟨ha, fun i q hq => ?_⟩⟩⟩
  rw [(hc.ran i).store] at hq
  obtain ⟨p, hp, rfl⟩ := Array.mem_map.1 hq
  have hd := h.isDue_of_atMesh hu hin hon hst hc ha hp
  have hstop := (hon.isDue_iff hu hin hst hc hp).2.1 hd
  rw [← ha] at hv hv'
  exact ⟨bin_after_eq htree hu hon hst hc hb hbn (Nat.le_of_lt hvb) hv hv' hp hd hstop,
    (hon.turn hu hin hst hc hp).2 hstop⟩

omit htree hst in
theorem next_dvd (h : Astray u (now.toAbsolute u.timebase) mesh v b s)
    (hheld : ∀ i, ∀ p ∈ (s i).store, p.slot.Held u.bins (now.toAbsolute u.timebase)) :
    (pow2 (v + 1) : Int) ∣ c.next.toAbsolute u.timebase := by
  rcases (hon.isNext hu hin hc.heads.next).attained with he | ⟨i, p, hp, he⟩
  · rw [he]
    refine Int.dvd_mul_of_dvd_right (natCast_pow2_dvd ?_)
    exact Nat.le_sub_one_of_lt (Nat.lt_of_le_of_lt h.lt h.lt_bins)
  rw [he]
  rcases h.slots with ⟨hnow, hslots⟩ | ⟨-, hbins⟩
  · obtain ⟨hbin, hstart⟩ := hslots i p hp
    rw [(hheld i p hp).stop_eq hu.le_62]
    show (pow2 (v + 1) : Int) ∣ p.stepStart + pow2 p.bin.toNat
    rw [hbin, hstart, hnow]
    exact dvd_add_pow2 h.dvd h.not_dvd
  · have hbin := hbins i p hp
    refine Int.dvd_trans (natCast_pow2_dvd ?_) ((hheld i p hp).dvd_stop hu.le_62)
    show v + 1 ≤ p.bin.toNat
    omega

omit htree in
theorem isDue_of_first (h : Astray u (now.toAbsolute u.timebase) mesh v b s)
    (hheld : ∀ i, ∀ p ∈ (s i).store, p.slot.Held u.bins (now.toAbsolute u.timebase))
    (hslots : ∀ i, ∀ p ∈ (s i).store, p.bin = v ∧ p.stepStart = now.toAbsolute u.timebase)
    {i : Fin (m + 1)} {p : Particle α} (hp : p ∈ st i) : c.isDue u.bins p := by
  have hnext := hon.isNext hu hin hc.heads.next
  obtain ⟨hle, hiff⟩ := hon.isDue_iff hu hin hst hc hp
  refine hiff.2 (Int.le_antisymm ?_ hle)
  refine Store.forall_slot (hst i) (P := fun s => s.stop ≤ c.next.toAbsolute u.timebase)
    (fun q hq => ?_) p hp
  obtain ⟨hbin, hstart⟩ := hslots i q hq
  refine (hheld i q hq).stop_le_of_dvd hu.le_62 ?_ ?_
  · show q.stepStart < _
    rw [hstart]
    exact hnext.lt_of_held hheld
  · show (pow2 q.bin.toNat : Int) ∣ _
    rw [hbin]
    exact Int.dvd_trans (natCast_pow2_dvd (Nat.le_succ v)) (next_dvd hu hin hon hc h hheld)

/-- A run that is astray never comes to the end of the mesh step. -/
theorem leads (h : Astray u (now.toAbsolute u.timebase) mesh v b s)
    (hheld : ∀ i, ∀ p ∈ (s i).store, p.slot.Held u.bins (now.toAbsolute u.timebase)) :
    Astray u (c.next.toAbsolute u.timebase) mesh v b s' ∧ c.meshAfter u mesh = mesh ∧
      c.next.toAbsolute u.timebase ≠ mesh.stop := by
  have hdvd := next_dvd hu hin hon hc h hheld
  have hne := h.ne_stop_of_dvd hdvd
  have hat : ¬ c.atMesh u mesh := fun hat => hne (beq_iff_eq.1 hat)
  have hmost : c.most = pow2 b := (hc.agreed.kept hat).trans h.step_eq
  refine ⟨⟨h.lt, h.lt_bins, h.step_eq, h.dvd, h.not_dvd, .inr ⟨hdvd, fun i q hq => ?_⟩⟩,
    if_neg hat, hne⟩
  rw [(hc.ran i).store] at hq
  obtain ⟨p, hp, rfl⟩ := Array.mem_map.1 hq
  by_cases hd : c.isDue u.bins p
  · have hpos := pow2_pos b
    have hlt := h.lt
    have hbins := h.lt_bins
    have h62 := hu.le_62
    have hwant : c.want u p = pow2 b := by
      rw [hc.agreed.want_eq htree (by omega) (.inr ⟨b, by omega, hmost⟩) hp hd, hmost]
    have hround : 1 < TickCount.roundDown (c.want u p) := hc.one_lt_want hp hd
    rw [Course.bin_after hd]
    rw [hwant] at hround ⊢
    exact Assign.le_place_pow2 hround hbins (by omega) hlt
      ((Registry.dueMask_iff u c.next (v + 1)).2 ⟨by omega, .inr hdvd⟩)
  · show (v : Int) + 1 ≤ (c.after u u.bins mesh p).slot.bin
    rw [Course.slot_after, if_neg hd]
    rcases h.slots with ⟨-, hslots⟩ | ⟨-, hbins⟩
    · exact absurd (isDue_of_first hu hin hon hst hc h hheld hslots hp) hd
    · exact Store.forall_slot (hst i) (P := fun s => (v : Int) + 1 ≤ s.bin) (hbins i) p hp

end Cycle

end Astray

namespace Fleet

variable {f : Fleet α m} {store : Ranks m (Store α)} {k : Nat}
  {s s' : Ranks m (Stepper α f.setup.bins)}

/-- Up to a number of cycles every mesh step in force starts at a multiple of its length. -/
def MeshAligned (f : Fleet α m) (store : Ranks m (Store α)) (k : Nat) : Prop :=
  ∀ j ≤ k, ∀ s, f.after? store j = some s → ∀ i, (s i).mesh.step ∣ (s i).mesh.start

theorem exists_particle (hu : f.setup.IsMade) (hf : f.KeepsSchedule)
    (hfresh : ∀ i, ∀ p ∈ store i, p.slot.Fresh) (hp : ∃ i, ∃ p, p ∈ store i)
    (h : f.after? store k = some s) : ∃ i, ∃ p, p ∈ (s i).store := by
  induction k generalizing s with
  | zero =>
    obtain ⟨i, p, hp⟩ := hp
    refine ⟨i, p, ?_⟩
    rwa [(isFirst_of_after? h i).store]
  | succ k ih =>
    obtain ⟨t, ht, -⟩ := after?_succ.1 h
    obtain ⟨now, mesh, c, st, hin, hon, -, hst, hc⟩ := exists_leads hu hf hfresh ht h
    obtain ⟨i, p, hp⟩ := Course.exists_mem hst (ih ht)
    refine ⟨i, c.after f.setup f.setup.bins mesh p, ?_⟩
    rw [(hc.ran i).store]
    exact Array.mem_map_of_mem hp

section Run

variable [Scalar.Ordered α] (hu : f.setup.IsMade) (hf : f.KeepsSchedule)
  (hfresh : ∀ i, ∀ p ∈ store i, p.slot.Fresh) (hp : ∃ i, ∃ p, p ∈ store i)

include hu hf hfresh hp

theorem underMesh (h : f.after? store k = some s) (ha : f.MeshAligned store k) :
    UnderMesh f.setup (s 0).mesh s ∧ (s 0).mesh.start ≤ (s 0).currentAbsolute f.setup ∧
      (0 < k → (s 0).currentAbsolute f.setup < (s 0).mesh.stop) := by
  induction k generalizing s with
  | zero =>
    have hfirst := isFirst_of_after? h
    have hcurrent : (s 0).currentAbsolute f.setup = 0 := by
      rw [Stepper.currentAbsolute, (hfirst 0).current, Tick.toAbsolute_zero]
    rw [(hfirst 0).mesh, hcurrent]
    refine ⟨⟨.inl rfl, Int.le_of_lt hu.timebase_pos, fun i p hp => ?_⟩, Int.le_refl 0,
      fun h0 => absurd h0 (Nat.lt_irrefl 0)⟩
    rw [(hfirst i).store] at hp
    exact Int.le_of_eq (hfresh i p hp).stop_eq
  | succ k ih =>
    obtain ⟨t, ht, -⟩ := after?_succ.1 h
    obtain ⟨hunder, hstart, -⟩ := ih ht fun j hj => ha j (Nat.le_succ_of_le hj)
    have hdvd := ha k (Nat.le_succ k) t ht 0
    have hmem := exists_particle hu hf hfresh hp ht
    obtain ⟨now, mesh, c, st, hin, hon, -, hst, hc⟩ := exists_leads hu hf hfresh ht h
    rw [Stepper.currentAbsolute, hin.current] at hstart
    rw [hin.mesh] at hunder hstart hdvd
    rw [Stepper.currentAbsolute, (hc.ran 0).current, (hc.ran 0).mesh]
    obtain ⟨hunder', hle, hlt⟩ := hunder.leads hu hin hon hst hc hdvd hstart hmem
    exact ⟨hunder', hle, fun _ => hlt⟩

/-- Without tree gravity a run either has had only mesh steps that start at multiples of their
lengths, or is astray. -/
theorem aligned_or_astray (htree : f.setup.config.step.treeGravity = false)
    (h : f.after? store k = some s) : f.MeshAligned store k ∨
      (∃ v b, Astray f.setup ((s 0).currentAbsolute f.setup) (s 0).mesh v b s) ∧
        ∀ i, ∀ p ∈ (s i).store, p.slot.Held f.setup.bins ((s 0).currentAbsolute f.setup) := by
  induction k generalizing s with
  | zero =>
    left
    intro j hj t ht i
    obtain rfl : j = 0 := Nat.le_zero.1 hj
    have hstart : (t i).mesh.start = 0 := congrArg MeshStep.start (isFirst_of_after? ht i).mesh
    rw [hstart]
    exact Int.dvd_zero _
  | succ k ih =>
    obtain ⟨t, ht, -⟩ := after?_succ.1 h
    have hmem := exists_particle hu hf hfresh hp ht
    obtain ⟨now, mesh, c, st, hin, hon, -, hst, hc⟩ := exists_leads hu hf hfresh ht h
    rw [Stepper.currentAbsolute, (hc.ran 0).current, (hc.ran 0).mesh]
    have hheld' := hon.held hu hin hst hc
    rcases ih ht with ha | ⟨⟨v, b, hastray⟩, hheld⟩
    · by_cases hd : (c.meshAfter f.setup mesh).step ∣ (c.meshAfter f.setup mesh).start
      · left
        intro j hj t' ht' i
        rcases Nat.lt_or_eq_of_le hj with hlt | rfl
        · exact ha j (Nat.le_of_lt_succ hlt) t' ht' i
        · cases ht'.symm.trans h
          rwa [(hc.ran i).mesh]
      · right
        obtain ⟨hunder, -, -⟩ := underMesh hu hf hfresh hp ht ha
        have hdvd := ha k (Nat.le_refl k) t ht 0
        rw [hin.mesh] at hunder hdvd
        have hat : c.atMesh f.setup mesh := by
          by_cases hat : c.atMesh f.setup mesh
          · exact hat
          · rw [Course.meshAfter, if_neg hat] at hd
            exact absurd hdvd hd
        rw [Course.meshAfter, if_pos hat] at hd
        exact ⟨Astray.begins htree hu hin hon hst hc hunder (beq_iff_eq.1 hat) hmem hd, hheld'⟩
    · right
      rw [Stepper.currentAbsolute, hin.current] at hastray hheld
      rw [hin.mesh] at hastray
      obtain ⟨hastray', hmesh, -⟩ := Astray.leads htree hu hin hon hst hc hastray hheld
      rw [hmesh]
      exact ⟨⟨v, b, hastray'⟩, hheld'⟩

end Run

/-- While every mesh step starts at a multiple of its length, no cycle passes the end of one: the
run stops there, all particles are active, get the mesh kick after their new steps, and the next
mesh step begins. Without tree gravity the first mesh step that does not start so is never at its
end again, and stays in force. -/
theorem mesh_boundaries [Scalar.Ordered α] (hu : f.setup.IsMade) (hf : f.KeepsSchedule)
    (hfresh : ∀ i, ∀ p ∈ store i, p.bin = 0 ∧ p.stepStart = 0) (hp : ∃ i, ∃ p, p ∈ store i) :
    (∀ k s, f.after? store k = some s → f.MeshAligned store k →
      (0 < k → ∀ i, (s i).mesh.start ≤ (s i).currentAbsolute f.setup ∧
        (s i).currentAbsolute f.setup < (s i).mesh.stop) ∧
      (∀ t, Ranks.states? (fun i => Stepper.synchronize (f.on i)) s = some t →
        ∀ i, (t i).currentAbsolute f.setup ≤ (s i).mesh.stop) ∧
      ∀ s', f.after? store (k + 1) = some s' → ∀ i,
        (s' i).currentAbsolute f.setup = (s i).mesh.stop →
          (s' i).mesh.start = (s i).mesh.stop ∧ (∀ l < (s' i).store.size, l ∈ (s' i).active) ∧
          ∃ (r : Ranks m (Stepper.Tally α f.setup.bins)) (t : Ranks m (Stepper α f.setup.bins)),
            Ranks.Finish (fun i => Stepper.tally (f.on i) (f.forces k i)) s
              (fun i => .ok (r i)) t ∧
            (s' i).store = (t i).store.map
              (Stepper.meshKick true f.setup.kicker (s i).mesh (s' i).mesh.step)) ∧
    (f.setup.config.step.treeGravity = false → ∀ k s, f.after? store k = some s →
      ¬ f.MeshAligned store k → ∀ i, (s i).currentAbsolute f.setup ≠ (s i).mesh.stop ∧
        ∀ s', f.after? store (k + 1) = some s' → (s' i).mesh = (s i).mesh) := by
  have hslots : ∀ i, ∀ p ∈ store i, p.slot.Fresh := hfresh
  constructor
  · intro k s h ha
    obtain ⟨hunder, hstart, hstop⟩ := underMesh hu hf hslots hp h ha
    obtain ⟨now, mesh, hin, hon⟩ := exists_onSchedule hu hf hslots h
    have hmem := exists_particle hu hf hslots hp h
    simp only [Stepper.currentAbsolute, hin.current, hin.mesh] at hunder hstart hstop ⊢
    refine ⟨fun hk _ => ⟨hstart, hstop hk⟩, fun t ht i => ?_, fun s' h' i hat => ?_⟩
    · obtain ⟨next, hnext, -, hready⟩ := hon.exists_isNext hu hin ht
      rw [(hready i).1.current]
      exact hunder.next_le hnext hmem
    · obtain ⟨now', mesh', c, st, hin', hon', -, hst, hc⟩ := exists_leads hu hf hslots h h'
      obtain rfl : mesh' = mesh := (hin'.mesh 0).symm.trans (hin.mesh 0)
      have hran := hc.ran i
      rw [hran.current] at hat
      obtain ⟨-, hafter, -⟩ := hunder.renewed hu hin' hon' hst hc hat hmem
      rw [hran.mesh, hafter]
      refine ⟨rfl, fun l hl => ?_, ?_⟩
      · rw [hran.store, Array.size_map] at hl
        rw [hran.mem_active (Array.getElem?_eq_getElem hl)]
        exact hunder.isDue_of_atMesh hu hin' hon' hst hc hat (Array.getElem_mem hl)
      · obtain ⟨u, hu', hs⟩ := after?_succ.1 h'
        cases hu'.symm.trans h
        obtain ⟨r, t, ht, hkick⟩ := exists_tally hin hu (hf k) hs
        obtain ⟨hcurrent, -, hstore⟩ := hkick i
        refine ⟨r, t, ht, ?_⟩
        rw [Stepper.currentAbsolute, hcurrent, hran.current, hran.mesh, hafter] at hstore
        exact hstore hat
  · intro htree k s h ha i
    obtain ⟨⟨v, b, hastray⟩, hheld⟩ :=
      (aligned_or_astray hu hf hslots hp htree h).resolve_left ha
    obtain ⟨now, mesh, hin, hon⟩ := exists_onSchedule hu hf hslots h
    simp only [Stepper.currentAbsolute, hin.current, hin.mesh] at hastray hheld ⊢
    refine ⟨hastray.ne_stop, fun s' h' => ?_⟩
    obtain ⟨now', mesh', c, st, hin', hon', -, hst, hc⟩ := exists_leads hu hf hslots h h'
    obtain rfl : mesh' = mesh := (hin'.mesh 0).symm.trans (hin.mesh 0)
    obtain rfl : now' = now := (hin'.current 0).symm.trans (hin.current 0)
    rw [(hc.ran i).mesh]
    exact (Astray.leads htree hu hin' hon' hst hc hastray hheld).2.1

theorem mesh_boundaries_sample : ¬ Sample.fleet.MeshAligned Sample.store 2 ∧
    ∃ s, Sample.fleet.after? Sample.store 3 = some s ∧
      ∀ i, (s i).currentAbsolute Sample.setup ≠ (s i).mesh.stop ∧
        ∀ s', Sample.fleet.after? Sample.store 4 = some s' → (s' i).mesh = (s i).mesh := by
  have hmesh : (Sample.fleet.after? Sample.store 2).map (fun s => (s 0).mesh) = some ⟨2, 4⟩ := by
    decide +kernel
  have hnot : ¬ Sample.fleet.MeshAligned Sample.store 2 := by
    intro ha
    obtain ⟨s, h, hs⟩ := Option.map_eq_some_iff.1 hmesh
    have hdvd := ha 2 (Nat.le_refl 2) s h 0
    rw [hs] at hdvd
    exact absurd hdvd (by decide)
  have hsome : (Sample.fleet.after? Sample.store 3).isSome := by decide +kernel
  obtain ⟨s, h⟩ := Option.isSome_iff_exists.1 hsome
  refine ⟨hnot, s, h, ?_⟩
  exact (mesh_boundaries Sample.isMade Sample.keepsSchedule Sample.bin_eq_zero
    ⟨0, Sample.particle 0, by simp [Sample.store]⟩).2 rfl 3 s h
      fun ha => hnot fun j hj => ha j (Nat.le_succ_of_le hj)

end Fleet

end BlockStep

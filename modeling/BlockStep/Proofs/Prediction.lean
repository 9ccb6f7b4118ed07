import BlockStep.Proofs.Heating
import BlockStep.Proofs.OnSchedule

namespace BlockStep

namespace Scalar

variable {α : Type} [ExactScalar α]

theorem not_isWhole_of_lt {x : α} {i : Int} (h : (i : α) < x) (h' : x < (i : α) + 1) :
    ¬ isWhole x := by
  intro hwhole
  obtain ⟨j, hj⟩ := ExactScalar.floor_eq x
  rw [isWhole, ExactScalar.beq_iff, hj] at hwhole
  rw [← hwhole] at h h'
  have hlt : i < j := by exact_mod_cast h
  have hlt' : j < i + 1 := by exact_mod_cast h'
  omega

variable {x y : α}

theorem power_of_neg (hx : x < 0) (hy : 0 < y) (hy' : y < 1) :
    power x y = .error .powerNotReal := by
  have hwhole : ¬ isWhole y := by
    apply not_isWhole_of_lt (i := 0)
    · rwa [Int.cast_zero]
    · rwa [Int.cast_zero, zero_add]
  rw [power, ExactScalar.zero_eq, if_neg fun h => not_lt.2 hy.le h.2, if_pos]
  exact ⟨hx, isFinite_exact x, by simpa using hwhole⟩

end Scalar

namespace Kicker

section Parts

variable {α : Type} [Scalar α]

def entropyPower : α := 1.0 / gamma

def nextLength (r : Kicker α) (p : Particle α) : α :=
  0.5 * r.source.length (TickCount.cadence p.bin) (p.midpoint.fdiv r.timebase)

end Parts

variable {α : Type} [ExactScalar α] {r : Kicker α} {t : Timeline α} {p : Particle α}

theorem entropyPower_bounds : (0 : α) < entropyPower ∧ (entropyPower : α) < 1 := by
  have hliteral (m : Nat) (s : Bool) (e : Nat) := ExactScalar.ofScientific_eq (α := α) m s e
  rw [entropyPower, Kick.gamma_eq, hliteral]
  norm_num

theorem entropyAt_of_nonneg (r : Kicker α) {tick : Int} (h : 0 ≤ r.energyAt p tick) :
    ∃ x, r.entropyAt p tick = .ok x :=
  ⟨_, Scalar.power_of_nonneg h entropyPower_bounds.1⟩

theorem entropyAt_of_neg (r : Kicker α) {tick : Int} (h : r.energyAt p tick < 0) :
    r.entropyAt p tick = .error .powerNotReal :=
  Scalar.power_of_neg h entropyPower_bounds.1 entropyPower_bounds.2

/-- Lengths in `log a` are those of a clock. -/
structure GoesBy (r : Kicker α) (t : Timeline α) : Prop where
  length : ∀ ticks epoch, r.source.length ticks epoch = t.length (Scalar.ofInt ticks) epoch
  timebase : r.timebase = t.timebase

namespace GoesBy

theorem of_usesTable {table : KickTable α} (h : r.UsesTable table t) : r.GoesBy t where
  length _ _ := by
    rw [h.source]
    rfl
  timebase := h.timebase

theorem energyAt_eq (h : r.GoesBy t) (p : Particle α) (tick : Int) : r.energyAt p tick =
    p.energy + p.energyRate *
      (((tick - p.midpoint : Int) : α) * t.interval (tick.fdiv t.timebase)) := by
  rw [energyAt, h.length, h.timebase, Timeline.length, ExactScalar.ofInt_eq]

theorem nextLength_eq (h : r.GoesBy t) (p : Particle α) : r.nextLength p =
    1 / 2 * ((TickCount.cadence p.bin : α) * t.interval (p.midpoint.fdiv t.timebase)) := by
  rw [nextLength, h.length, h.timebase, Timeline.length, ExactScalar.ofInt_eq, ExactScalar.half_eq]

end GoesBy

end Kicker

namespace Slot.Held

variable {α : Type} {n : Nat} {now : Int} {p : Particle α}

theorem cadence_eq_double (h : p.slot.Held n now) (hn : n ≤ 62) :
    0 < p.slot.stop - p.midpoint ∧ TickCount.cadence p.bin = 2 * (p.slot.stop - p.midpoint) := by
  have hpos : 1 ≤ p.bin := h.pos
  have hlt : p.bin < n := h.lt
  obtain ⟨b, hb⟩ : ∃ b : Nat, p.bin.toNat = b + 1 := ⟨p.bin.toNat - 1, by omega⟩
  have hcadence : TickCount.cadence p.bin = 2 * (pow2 b : Int) := by
    rw [TickCount.cadence_of_pos (by omega) (by omega), hb, pow2_succ]
    rfl
  have hstop : p.slot.stop = p.stepStart + TickCount.cadence p.bin := rfl
  have hmid : p.midpoint = p.stepStart + TickCount.cadence p.bin / 2 := rfl
  have hone := pow2_pos b
  omega

/-- A step does not leave its epoch before its end. -/
theorem fdiv_eq (h : p.slot.Held n now) (hn : n ≤ 62) {tick : Int} (hstart : p.stepStart ≤ tick)
    (hstop : tick < p.slot.stop) :
    tick.fdiv (pow2 (n - 1)) = p.stepStart.fdiv (pow2 (n - 1)) := by
  have htb : (0 : Int) < pow2 (n - 1) := Int.natCast_pos.2 (pow2_pos _)
  have hle := Timeline.fdiv_mul_le htb p.stepStart
  have hend := h.stop_le_epoch hn (Timeline.lt_fdiv_mul htb p.stepStart)
  exact Timeline.fdiv_eq htb (hle.trans hstart) (hstop.trans_le hend)

theorem fdiv_eq_midpoint (h : p.slot.Held n now) (hn : n ≤ 62) {tick : Int}
    (hmid : p.midpoint ≤ tick) (hstop : tick < p.slot.stop) :
    tick.fdiv (pow2 (n - 1)) = p.midpoint.fdiv (pow2 (n - 1)) := by
  have hhalf := h.cadence_eq_double hn
  have hslot : p.slot.stop = p.stepStart + TickCount.cadence p.bin := rfl
  have htick := h.fdiv_eq hn (by omega : p.stepStart ≤ tick) hstop
  have hmiddle := h.fdiv_eq hn (by omega : p.stepStart ≤ p.midpoint) (by omega)
  exact htick.trans hmiddle.symm

end Slot.Held

theorem half_share_le {α : Type} [ExactScalar α] {u rate d h i j : α} (hu : 0 ≤ u) (hd : 0 ≤ d)
    (hdh : d ≤ h) (hi : 0 < i) (hj : 0 < j) (hrate : -(u / 2) ≤ rate * (h * i)) :
    u - u / 2 * (j / i) ≤ u + rate * (d * j) := by
  have hratio : 0 < j / i := div_pos hj hi
  have hshare : -(u / 2) * (j / i) ≤ rate * (d * j) := by
    rcases le_total 0 rate with hpos | hneg
    · have hgain : 0 ≤ rate * (d * j) := mul_nonneg hpos (mul_nonneg hd hj.le)
      have hloss : 0 ≤ u / 2 * (j / i) := mul_nonneg (by linarith) hratio.le
      linarith
    · calc -(u / 2) * (j / i) ≤ rate * (h * i) * (j / i) := by gcongr
        _ = rate * (h * j) := by field_simp
        _ ≤ rate * (d * j) := by
          apply mul_le_mul_of_nonpos_left _ hneg
          gcongr
  linarith

/-- A rate that takes half over one length takes more than half, or all, over longer ones. -/
theorem half_share_cut {α : Type} [ExactScalar α] {u rate h i j : α} (hu : 0 < u) (hi : 0 < i)
    (hrate : rate * (h * i) = -(u / 2)) :
    (u + rate * (h * j) < u / 2 ↔ i < j) ∧ (u + rate * (h * j) < 0 ↔ 2 * i < j) := by
  have hdouble : 0 < 2 * i := by linarith
  have hlost : 2 * i * (u / 2 - (u + rate * (h * j))) = u * (j - i) := by
    linear_combination -2 * j * hrate
  have hall : 2 * i * -(u + rate * (h * j)) = u * (j - 2 * i) := by
    linear_combination hlost
  constructor
  · rw [← sub_pos, ← mul_pos_iff_of_pos_left hdouble, hlost, mul_pos_iff_of_pos_left hu, sub_pos]
  · rw [← neg_pos, ← mul_pos_iff_of_pos_left hdouble, hall, mul_pos_iff_of_pos_left hu, sub_pos]

namespace Kicker

variable {α : Type} [ExactScalar α] {r : Kicker α} {t : Timeline α} {p : Particle α}

/-- What is predicted for a gas particle from the middle of its step to its end. -/
structure Predicts (r : Kicker α) (t : Timeline α) (p : Particle α) : Prop where
  inside : ∀ tick, p.midpoint ≤ tick → tick < p.slot.stop →
    p.energy / 2 ≤ r.energyAt p tick ∧ ∃ x, r.entropyAt p tick = .ok x
  stop : p.energy - p.energy / 2 *
    (t.interval (p.slot.stop.fdiv t.timebase) / t.interval (p.midpoint.fdiv t.timebase)) ≤
      r.energyAt p p.slot.stop
  stop_of_le : t.interval (p.slot.stop.fdiv t.timebase) ≤ t.interval (p.midpoint.fdiv t.timebase) →
    p.energy / 2 ≤ r.energyAt p p.slot.stop ∧ ∃ x, r.entropyAt p p.slot.stop = .ok x
  /-- A rate that the limit has cut takes more than half where ticks get longer. -/
  stop_of_cut : 0 < p.energy → p.energyRate * r.nextLength p = -(p.energy / 2) →
    (r.energyAt p p.slot.stop < p.energy / 2 ↔
      t.interval (p.midpoint.fdiv t.timebase) < t.interval (p.slot.stop.fdiv t.timebase)) ∧
    (r.energyAt p p.slot.stop < 0 ↔
      2 * t.interval (p.midpoint.fdiv t.timebase) < t.interval (p.slot.stop.fdiv t.timebase))
  refused : r.energyAt p p.slot.stop < 0 → r.entropyAt p p.slot.stop = .error .powerNotReal

theorem predicts_of_slack {n : Nat} {now : Int} (h : r.GoesBy t) (ht : t.IsClock)
    (htb : t.timebase = pow2 (n - 1)) (hn : n ≤ 62) (hslot : p.slot.Held n now) (hu : 0 ≤ p.energy)
    (hslack : 0 < r.nextLength p → -(p.energy / 2) ≤ p.energyRate * r.nextLength p) :
    r.Predicts t p := by
  obtain ⟨hhalf, hcadence⟩ := hslot.cadence_eq_double hn
  have hi := ht.interval_pos (p.midpoint.fdiv t.timebase)
  have hj := ht.interval_pos (p.slot.stop.fdiv t.timebase)
  have hcast : (0 : α) < ((p.slot.stop - p.midpoint : Int) : α) := Int.cast_pos.2 hhalf
  have hnext : r.nextLength p = ((p.slot.stop - p.midpoint : Int) : α) *
      t.interval (p.midpoint.fdiv t.timebase) := by
    rw [h.nextLength_eq, hcadence]
    push_cast
    ring
  -- the limit was taken over all ticks from the middle to the end, all of them in one epoch
  have hrate := hslack (hnext ▸ mul_pos hcast hi)
  rw [hnext] at hrate
  have hshare {tick : Int} (hmid : p.midpoint ≤ tick) (hle : tick ≤ p.slot.stop) :
      p.energy - p.energy / 2 * (t.interval (tick.fdiv t.timebase) /
        t.interval (p.midpoint.fdiv t.timebase)) ≤ r.energyAt p tick := by
    rw [h.energyAt_eq]
    apply half_share_le hu _ _ hi (ht.interval_pos _) hrate
    · exact Int.cast_nonneg (by omega)
    · exact Int.cast_le.2 (by omega)
  have hok {tick : Int} (hhalf : p.energy / 2 ≤ r.energyAt p tick) :
      p.energy / 2 ≤ r.energyAt p tick ∧ ∃ x, r.entropyAt p tick = .ok x :=
    ⟨hhalf, r.entropyAt_of_nonneg ((by linarith : 0 ≤ p.energy / 2).trans hhalf)⟩
  have hstop := hshare (by omega : p.midpoint ≤ p.slot.stop) le_rfl
  constructor
  case inside =>
    intro tick hmid hlt
    have hsame : tick.fdiv t.timebase = p.midpoint.fdiv t.timebase := by
      rw [htb]
      exact hslot.fdiv_eq_midpoint hn hmid hlt
    have hwithin := hshare hmid hlt.le
    rw [hsame, div_self hi.ne'] at hwithin
    exact hok (by linarith)
  case stop => exact hstop
  case stop_of_le =>
    intro hle
    have hratio : p.energy / 2 * (t.interval (p.slot.stop.fdiv t.timebase) /
        t.interval (p.midpoint.fdiv t.timebase)) ≤ p.energy / 2 :=
      mul_le_of_le_one_right (by linarith) ((div_le_one hi).2 hle)
    exact hok (by linarith)
  case stop_of_cut =>
    intro hpos hcut
    rw [hnext] at hcut
    rw [h.energyAt_eq]
    exact half_share_cut hpos hi hcut
  case refused => exact r.entropyAt_of_neg

end Kicker

namespace Course

variable {α : Type} [ExactScalar α] {u : Setup α} {n : Nat} {mesh : MeshStep} {c : Course α}
  {q : Particle α}

/-- A gas particle with a new step is left with a rate for its next kick. -/
theorem slack_after (hd : c.isDue n q) (hq : q.isGas)
    (hnext : 0 < u.kicker.nextLength (c.after u n mesh q)) :
    -((c.after u n mesh q).energy / 2) ≤
      (c.after u n mesh q).energyRate * u.kicker.nextLength (c.after u n mesh q) := by
  let f := c.instant.factors
  let placed := Assign.place n (c.isActive n) (c.want u q) q.bin
  let moved := { q with bin := placed.bin, stepStart := q.slot.stop }
  let k : Stretch := ⟨0, q.midpoint, kickPoint q.slot.stop placed.ticks⟩
  have hturned : c.turned u n q = Kick.withGas (u.kicker.gasOf f k moved)
      (u.kicker.note k.stop moved) := by
    rw [turned, if_pos hd]
    exact Kicker.listedOne_of_isGas u.kicker f k hq
  have hslot : (c.after u n mesh q).slot = ⟨q.kind, placed.bin, q.slot.stop⟩ := by
    rw [slot_after, if_pos hd]
  have hmid : (c.after u n mesh q).midpoint = k.stop :=
    congrArg (fun s : Slot => kickPoint s.stepStart (TickCount.cadence s.bin)) hslot
  have hbin : (c.after u n mesh q).bin = moved.bin := congrArg Slot.bin hslot
  have henergy : (c.after u n mesh q).energy = (u.kicker.gasOf f k moved).energy ∧
      (c.after u n mesh q).energyRate = (u.kicker.gasOf f k moved).rate := by
    rw [after, hturned]
    split <;> exact ⟨rfl, rfl⟩
  have hlength : u.kicker.nextLength (c.after u n mesh q) =
      (u.kicker.gasWeight k.start k.stop moved).next := by
    rw [Kicker.nextLength, hmid, hbin]
    rfl
  rw [hlength] at hnext ⊢
  rw [henergy.1, henergy.2]
  exact Kick.rate_mul_next _ _ hnext

end Course

namespace Fleet

variable {α : Type} [ExactScalar α] {m : Nat} {f : Fleet α m} {store : Ranks m (Store α)} {k : Nat}
  {s : Ranks m (Stepper α f.setup.bins)}

/-- After a cycle the energy that is predicted for an active gas particle is at least half of its
energy up to the end of its step; at the end itself it can be less, even below zero, if and only if
the ticks of the next epoch are longer. -/
theorem predictions_after_cycle (hu : f.setup.IsMade) (hf : f.KeepsSchedule)
    (hfresh : ∀ i, ∀ p ∈ store i, p.slot.Fresh) {begin max : α} {outputs : List α}
    (ht : Timeline.make begin max outputs f.setup.timebase = .ok f.setup.timeline)
    (hk : f.setup.kicker.GoesBy f.setup.timeline) (h : f.after? store (k + 1) = some s)
    (i : Fin (m + 1)) {l : Nat} {p : Particle α} (hl : l ∈ (s i).active)
    (hp : (s i).store[l]? = some p) (hgas : p.isGas) (henergy : 0 ≤ p.energy) :
    1 ≤ p.bin ∧ f.setup.kicker.Predicts f.setup.timeline p := by
  obtain ⟨before, hbefore, -⟩ := after?_succ.1 h
  obtain ⟨now, mesh, c, st, hin, hon, -, hst, hc⟩ := exists_leads hu hf hfresh hbefore h
  have hheld := hon.held hu hin hst hc i p (Array.mem_of_getElem? hp)
  obtain ⟨q, hq, hdue⟩ := (hc.ran i).active.mem_iff l |>.1 hl
  obtain rfl : c.after f.setup f.setup.bins mesh q = p :=
    Option.some.inj (((hc.ran i).getElem?_store hq).symm.trans hp)
  have hslot : (c.after f.setup f.setup.bins mesh q).slot = ⟨q.kind, _, q.slot.stop⟩ :=
    (Course.slot_after q).trans (if_pos hdue)
  have hkind : (c.after f.setup f.setup.bins mesh q).kind = q.kind := congrArg Slot.kind hslot
  have hqgas : q.isGas := by
    rw [Particle.isGas, hkind] at hgas
    exact hgas
  have hclock := (Timeline.isClock_of_make ht hu.timebase_pos).1
  exact ⟨hheld.pos, Kicker.predicts_of_slack hk hclock hu.timebase_eq hu.le_62 hheld henergy
    (Course.slack_after hdue hqgas)⟩

section Sample

def coolClock : Timeline Rat := .ofEdges ([1, 2, 5].map Scalar.log) 8

def coolConfig : Config Rat := { Sample.config with timeline := ⟨4, 1, 5, [2]⟩ }

def coolTable : KickTable Rat := ⟨#[0, 4], #[0, 1], #[0, 2]⟩

def coolSetup : Setup Rat where
  config := coolConfig
  timeline := coolClock
  kicker := coolConfig.kicker (coolTable.source coolClock) false
  writer := none

def coolFleet : Fleet Rat 0 := ⟨coolSetup, fun _ => none, fun _ _ => none⟩

def coolStore : Ranks 0 (Store Rat) := fun _ =>
  #[{ (default : Particle Rat) with
      kind := 0, mass := 1, energy := 1, energyRate := -100, eomDensity := 1, smoothing := 1 }]

theorem predictions_after_cycle_sample : ∃ s p, coolFleet.after? coolStore 1 = some s ∧
    (s 0).store[0]? = some p ∧ p.energy = 1 / 2 ∧ p.slot.stop = 8 ∧
      (∀ tick, p.midpoint ≤ tick → tick < 8 → 1 / 4 ≤ coolSetup.kicker.energyAt p tick) ∧
      coolSetup.kicker.energyAt p 8 < 0 ∧
      coolSetup.kicker.entropyAt p 8 = .error .powerNotReal := by
  have hmake : Timeline.make (1 : Rat) 5 [2] coolSetup.timebase = .ok coolSetup.timeline :=
    Timeline.make_eq [2] (by decide +kernel) (by decide +kernel) (by decide +kernel)
  have hmade : coolSetup.IsMade := ⟨by decide, by decide, rfl⟩
  have hforces : coolFleet.KeepsSchedule := fun _ => Forces.keepSchedule_none
  have hfresh : ∀ i, ∀ p ∈ coolStore i, p.slot.Fresh := by
    intro i p hp
    rw [Array.mem_singleton.1 hp]
    exact ⟨rfl, rfl⟩
  have htable : coolSetup.kicker.UsesTable coolTable coolClock := ⟨rfl, rfl⟩
  have hclock : coolSetup.kicker.GoesBy coolSetup.timeline := .of_usesTable htable
  obtain ⟨s, hs, hactive, p, hp, hgas, henergy, hstop, hrate, hratio⟩ :
      ∃ s ∈ coolFleet.after? coolStore 1, 0 ∈ (s 0).active ∧ ∃ p ∈ (s 0).store[0]?,
        p.isGas ∧ p.energy = 1 / 2 ∧ p.slot.stop = 8 ∧
        p.energyRate * coolSetup.kicker.nextLength p = -(p.energy / 2) ∧
        2 * coolClock.interval (p.midpoint.fdiv 8) < coolClock.interval (p.slot.stop.fdiv 8) := by
    decide +kernel
  have hpos : 0 < p.energy := by
    rw [henergy]
    norm_num
  have hpredicts := (predictions_after_cycle hmade hforces hfresh hmake hclock hs 0 hactive hp hgas
    hpos.le).2
  have hless := (hpredicts.stop_of_cut hpos hrate).2.2 hratio
  have hrefused := hpredicts.refused hless
  have hinside := hpredicts.inside
  rw [hstop] at hless hrefused hinside
  rw [henergy] at hinside
  refine ⟨s, p, hs, hp, henergy, hstop, ?_, hless, hrefused⟩
  intro tick hmid hlt
  have hquarter : (1 / 4 : Rat) = 1 / 2 / 2 := by norm_num
  rw [hquarter]
  exact (hinside tick hmid hlt).1

end Sample

end Fleet

end BlockStep

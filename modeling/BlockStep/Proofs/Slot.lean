import BlockStep.Particle
import BlockStep.Proofs.Placement
import BlockStep.Sync
import Mathlib.Order.Bounds.Basic

namespace BlockStep

@[simp] theorem Tick.toAbsolute_zero (timebase : Int) : Tick.toAbsolute ⟨0, 0⟩ timebase = 0 := by
  simp [Tick.toAbsolute]

structure Slot where
  kind : Int
  bin : Int
  stepStart : Int

def Particle.slot {α : Type} (p : Particle α) : Slot := ⟨p.kind, p.bin, p.stepStart⟩

def Store.slots {α : Type} (s : Store α) : Array Slot := s.map Particle.slot

namespace Slot

variable {n : Nat} {now next : Int} {s : Slot}

/-- The tick at which the step ends. -/
def stop (s : Slot) : Int := s.stepStart + TickCount.cadence s.bin

/-- The step of a bin above 0 that lies around a tick and starts at a multiple of its length. -/
structure Held (n : Nat) (now : Int) (s : Slot) : Prop where
  pos : 1 ≤ s.bin
  lt : s.bin < n
  dvd : (pow2 s.bin.toNat : Int) ∣ s.stepStart
  start_le : s.stepStart ≤ now
  lt_stop : now < s.stop

/-- No step yet: the lowest bin at the first tick. -/
def Fresh (s : Slot) : Prop := s.bin = 0 ∧ s.stepStart = 0

theorem Fresh.stop_eq (h : s.Fresh) : s.stop = 0 := by
  rw [stop, h.1, h.2]
  rfl

namespace Held

theorem stop_eq (h : s.Held n now) (hn : n ≤ 62) : s.stop = s.stepStart + pow2 s.bin.toNat := by
  have := h.pos
  have := h.lt
  rw [stop, TickCount.cadence_of_pos (by omega) (by omega)]

theorem dvd_timebase (h : s.Held n now) : (pow2 s.bin.toNat : Int) ∣ pow2 (n - 1) := by
  have := h.pos
  have := h.lt
  exact natCast_pow2_dvd (by omega)

theorem dvd_stop (h : s.Held n now) (hn : n ≤ 62) : (pow2 s.bin.toNat : Int) ∣ s.stop := by
  rw [h.stop_eq hn]
  exact Int.dvd_add h.dvd (Int.dvd_refl _)

theorem even_stop (h : s.Held n now) (hn : n ≤ 62) : 2 ∣ s.stop := by
  have := h.pos
  have h2 : (pow2 1 : Int) ∣ pow2 s.bin.toNat := natCast_pow2_dvd (by omega)
  exact Int.dvd_trans h2 (h.dvd_stop hn)

theorem stop_le_of_dvd (h : s.Held n now) (hn : n ≤ 62) {t : Int} (ht : s.stepStart < t)
    (hd : (pow2 s.bin.toNat : Int) ∣ t) : s.stop ≤ t := by
  rw [h.stop_eq hn]
  have := Int.le_of_dvd (by omega) (Int.dvd_sub hd h.dvd)
  omega

theorem stop_le_epoch (h : s.Held n now) (hn : n ≤ 62) {epoch : Int}
    (he : s.stepStart < epoch * pow2 (n - 1)) : s.stop ≤ epoch * pow2 (n - 1) :=
  h.stop_le_of_dvd hn he (Int.dvd_mul_of_dvd_right h.dvd_timebase)

theorem dvd_iff (h : s.Held n now) (hn : n ≤ 62) {t : Int} (ht : now < t) (ht' : t ≤ s.stop) :
    (pow2 s.bin.toNat : Int) ∣ t ↔ t = s.stop := by
  have := h.start_le
  constructor
  · intro hd
    have := h.stop_le_of_dvd hn (by omega) hd
    omega
  · rintro rfl
    exact h.dvd_stop hn

end Held

/-- A slot after a tick at which the bins for which `f` are active: an active step is followed by
one whose length is assigned for a usable desire, and others stay. -/
def TurnsTo (n : Nat) (f : Nat → Bool) (desire : Int → Prop) (s s' : Slot) : Prop :=
  if f s.bin.toNat then
    ∃ d, desire d ∧ 1 < TickCount.roundDown d ∧
      s' = ⟨s.kind, (Assign.place n f d s.bin).bin, s.stop⟩
  else s' = s

end Slot

namespace Registry

variable {n : Nat}

theorem nextMultiple_add (base tick : Int) {cadence : Int} (hc : 0 < cadence)
    (hd : cadence ∣ base) :
    nextMultiple (base + tick) cadence = base + nextMultiple tick cadence := by
  obtain ⟨k, rfl⟩ := hd
  simp only [nextMultiple, Int.fdiv_eq_ediv_of_nonneg _ (Int.le_of_lt hc)]
  rw [Int.add_comm (cadence * k), Int.add_mul_ediv_left _ _ (Int.ne_of_gt hc), Int.add_mul,
    Int.mul_comm k]
  omega

theorem nextMultiple_eq {start tick cadence : Int} (hd : cadence ∣ start) (hs : start ≤ tick)
    (ht : tick < start + cadence) : nextMultiple tick cadence = start + cadence := by
  have hq : (tick - start) / cadence = 0 := Int.ediv_eq_zero_of_lt (by omega) (by omega)
  have h := nextMultiple_add start (tick - start) (by omega) hd
  have he : start + (tick - start) = tick := by omega
  rw [he] at h
  rw [h, nextMultiple, Int.fdiv_eq_ediv_of_nonneg _ (by omega), hq, Int.zero_mul, Int.zero_add]

theorem isLeast_foldl_min (is : List Int) (i : Int) :
    IsLeast {j | j = i ∨ j ∈ is} (is.foldl min i) := by
  induction is generalizing i with
  | nil =>
    refine ⟨.inl rfl, ?_⟩
    rintro j (rfl | hj)
    · exact Int.le_refl j
    · exact absurd hj List.not_mem_nil
  | cons k ks ih =>
    obtain ⟨hmem, hle⟩ := ih (min i k)
    have hmin := hle (.inl rfl)
    rw [List.foldl_cons]
    constructor
    · rcases hmem with he | hmem
      · rcases Int.le_total i k with hik | hik
        · exact .inl (he.trans (Int.min_eq_left hik))
        · exact .inr (List.mem_cons.2 (.inl (he.trans (Int.min_eq_right hik))))
      · exact .inr (List.mem_cons_of_mem k hmem)
    · rintro j (rfl | hj)
      · exact Int.le_trans hmin (Int.min_le_left _ _)
      · rcases List.mem_cons.1 hj with rfl | hj
        · exact Int.le_trans hmin (Int.min_le_right _ _)
        · exact hle (.inr hj)

end Registry

namespace Slot

variable {n : Nat} {s : Slot}

/-- The first tick at which the step of a slot can end; without a step that is at once. -/
def dueTick (current : Tick) (timebase : Int) (s : Slot) : Int :=
  if s.bin = 0 then current.toAbsolute timebase
  else current.epoch * timebase + Registry.nextMultiple current.localTick (pow2 s.bin.toNat)

theorem Held.dueTick_eq {current : Tick} (h : s.Held n (current.toAbsolute (pow2 (n - 1))))
    (hn : n ≤ 62) : s.dueTick current (pow2 (n - 1)) = s.stop := by
  have hpos := h.pos
  have hlt := h.lt_stop
  rw [h.stop_eq hn, Tick.toAbsolute] at hlt
  rw [dueTick, if_neg (by omega), ← Registry.nextMultiple_add _ _
    (Int.natCast_pos.2 (pow2_pos _)) (Int.dvd_mul_of_dvd_right h.dvd_timebase), h.stop_eq hn]
  exact Registry.nextMultiple_eq h.dvd h.start_le hlt

theorem Fresh.dueTick_eq (h : s.Fresh) (timebase : Int) : s.dueTick ⟨0, 0⟩ timebase = s.stop := by
  rw [dueTick, if_pos h.1, h.stop_eq, Tick.toAbsolute_zero]

end Slot

namespace Registry

variable {n : Nat}

def dueTicks {α : Type} (current : Tick) (timebase : Int) (store : Store α) : Set Int :=
  {t | t = (current.epoch + 1) * timebase ∨ ∃ p ∈ store, t = p.slot.dueTick current timebase}

theorem le_of_mem_dueTicks {α : Type} {current : Tick} {timebase : Int}
    (hl : current.localTick < timebase) {store : Store α} {t : Int}
    (ht : t ∈ dueTicks current timebase store) : current.toAbsolute timebase ≤ t := by
  rcases ht with rfl | ⟨q, -, rfl⟩
  · rw [Int.add_mul, Int.one_mul, Tick.toAbsolute]
    omega
  · rw [Slot.dueTick]
    split
    · exact Int.le_refl _
    · have := lt_nextMultiple current.localTick (Int.natCast_pos.2 (pow2_pos q.slot.bin.toNat))
      rw [Tick.toAbsolute]
      omega

/-- The particles of a store are counted exactly, by their bins and by kinds and bins. -/
structure Counts {α : Type} (r : Registry n) (store : Store α) : Prop where
  total : r.count = Vector.ofFn fun b => countIn store b.val
  kinds : r.byKind = Vector.ofFn fun k => Vector.ofFn fun b => countOf store k.val b.val

namespace Counts

variable {α : Type} {r : Registry n} {store : Store α}

theorem getD_eq (h : r.Counts store) {b : Nat} (hb : b < n) :
    r.count[b]?.getD 0 = countIn store b := by
  rw [h.total, Vector.getElem?_eq_getElem hb, Vector.getElem_ofFn]
  rfl

theorem mem_occupied (h : r.Counts store) {b : Nat} :
    b ∈ r.occupied ↔ b < n ∧ ∃ p ∈ store, p.bin = b := by
  simp only [occupied, List.mem_filter, List.mem_range, bne_iff_ne]
  refine and_congr_right fun hb => ?_
  rw [h.getD_eq hb, countIn, ← Int.natCast_zero, Ne, Int.natCast_inj]
  change store.countP _ ≠ 0 ↔ _
  rw [← Nat.pos_iff_ne_zero, Array.countP_pos_iff]
  simp

theorem isLeast_current {current : Tick} {timebase : Int} (hl : current.localTick < timebase)
    {p : Particle α} (hp : p ∈ store) (hb : p.bin = 0) :
    IsLeast (dueTicks current timebase store) (current.toAbsolute timebase) :=
  ⟨.inr ⟨p, hp, (if_pos hb).symm⟩, fun _ ht => le_of_mem_dueTicks hl ht⟩

theorem mem_candidates (h : r.Counts store) (hf : ∀ p ∈ store, 0 ≤ p.bin ∧ p.bin < n)
    {tick t : Int} :
    t ∈ (r.occupied.filter (0 < ·)).map (fun b => nextMultiple tick (pow2 b)) ↔
      ∃ p ∈ store, 1 ≤ p.bin ∧ nextMultiple tick (pow2 p.bin.toNat) = t := by
  rw [List.mem_map]
  constructor
  · rintro ⟨b, hb, rfl⟩
    obtain ⟨hb, hpos⟩ := List.mem_filter.1 hb
    obtain ⟨-, p, hp, hpb⟩ := h.mem_occupied.1 hb
    have hpos' := of_decide_eq_true hpos
    refine ⟨p, hp, by omega, ?_⟩
    rw [hpb, Int.toNat_natCast]
  · rintro ⟨p, hp, hpos, rfl⟩
    have hbin := hf p hp
    refine ⟨p.bin.toNat, List.mem_filter.2 ⟨?_, decide_eq_true (by omega)⟩, rfl⟩
    exact h.mem_occupied.2 ⟨by omega, p, hp, by omega⟩

theorem exists_bin_zero_iff (h : r.Counts store) (hf : ∀ p ∈ store, 0 ≤ p.bin ∧ p.bin < n) :
    r.count[0]?.getD 0 ≠ 0 ↔ ∃ p ∈ store, p.bin = 0 := by
  by_cases hn : 0 < n
  · have hmem := h.mem_occupied (b := 0)
    simp only [occupied, List.mem_filter, List.mem_range, bne_iff_ne, hn, true_and] at hmem
    exact hmem
  · rw [Vector.getElem?_eq_none (by omega)]
    refine ⟨fun hne => absurd rfl hne, ?_⟩
    rintro ⟨p, hp, -⟩
    have hbin := hf p hp
    omega

/-- The next due tick of a rank is the first one at which the step of a particle or the epoch can
end. -/
theorem isLeast_nextSync (h : r.Counts store) {current : Tick} {timebase : Int}
    (hl : current.localTick < timebase) (hf : ∀ p ∈ store, 0 ≤ p.bin ∧ p.bin < n) :
    IsLeast (dueTicks current timebase store)
      ((r.nextSync current timebase).toAbsolute timebase) := by
  by_cases hzero : r.count[0]?.getD 0 ≠ 0
  · obtain ⟨p, hp, hb⟩ := (h.exists_bin_zero_iff hf).1 hzero
    rw [nextSync, if_pos hzero]
    exact isLeast_current hl hp hb
  have hpos {p : Particle α} (hp : p ∈ store) : 1 ≤ p.bin := by
    have hbin := hf p hp
    have hne : p.bin ≠ 0 := fun hb => hzero ((h.exists_bin_zero_iff hf).2 ⟨p, hp, hb⟩)
    omega
  have hdue {p : Particle α} (hp : p ∈ store) : p.slot.dueTick current timebase =
      current.epoch * timebase + nextMultiple current.localTick (pow2 p.bin.toNat) := by
    have hbin := hpos hp
    exact if_neg (show ¬ p.bin = 0 by omega)
  have hend : (current.epoch + 1) * timebase = current.epoch * timebase + timebase := by
    rw [Int.add_mul, Int.one_mul]
  simp only [nextSync, if_neg hzero, Tick.toAbsolute]
  obtain ⟨hmem, hle⟩ := isLeast_foldl_min ((r.occupied.filter (0 < ·)).map
    fun b => nextMultiple current.localTick (pow2 b)) timebase
  constructor
  · rcases hmem with he | hmem
    · exact .inl (by rw [he, hend])
    · obtain ⟨p, hp, -, ht⟩ := (h.mem_candidates hf).1 hmem
      exact .inr ⟨p, hp, by rw [hdue hp, ht]⟩
  · rintro t (rfl | ⟨p, hp, rfl⟩)
    · rw [hend]
      exact Int.add_le_add_left (hle (.inl rfl)) _
    · rw [hdue hp]
      exact Int.add_le_add_left (hle (.inr ((h.mem_candidates hf).2 ⟨p, hp, hpos hp, rfl⟩))) _

end Counts

theorem getD_dueMask {tick : Int} {b : Nat} :
    (dueMask n tick)[b]?.getD false ↔ b < n ∧ (b = 0 ∨ (pow2 b : Int) ∣ tick) := by
  by_cases hb : b < n
  · rw [Vector.getElem?_eq_getElem hb, Option.getD_some, getElem_dueMask, Bool.or_eq_true,
      beq_iff_eq, beq_iff_eq, Int.dvd_iff_emod_eq_zero]
    exact (and_iff_right hb).symm
  · simp [hb]

theorem getD_dueMask_of_le {tick : Int} {b c : Nat} (h : c ≤ b)
    (hb : (dueMask n tick)[b]?.getD false) :
    (dueMask n tick)[c]?.getD false := by
  rw [getD_dueMask] at hb ⊢
  obtain ⟨hlt, hdue⟩ := hb
  refine ⟨by omega, ?_⟩
  rcases hdue with rfl | hdvd
  · exact .inl (by omega)
  · exact .inr (Int.dvd_trans (natCast_pow2_dvd h) hdvd)

end Registry

namespace Slot.Held

variable {n : Nat} {now t : Int} {f : Nat → Bool} {P : Int → Prop} {s s' : Slot}

theorem active_iff (h : s.Held n now ∨ s.Fresh ∧ now = 0 ∧ t = 0) (hn : 2 ≤ n) (hn' : n ≤ 62)
    (hlt : s.Held n now → now < t) (hstop : t ≤ s.stop)
    (hf : ∀ b, f b ↔ b < n ∧ (b = 0 ∨ (pow2 b : Int) ∣ t)) : f s.bin.toNat ↔ s.stop = t := by
  rcases h with h | ⟨h, -, rfl⟩
  · have hp := h.pos
    have hl := h.lt
    rw [hf, h.dvd_iff hn' (hlt h) hstop]
    constructor
    · rintro ⟨-, h0 | rfl⟩
      · omega
      · rfl
    · rintro rfl
      exact ⟨by omega, .inr rfl⟩
  · rw [h.stop_eq, hf, h.1]
    exact ⟨fun _ => rfl, fun _ => ⟨by omega, .inl rfl⟩⟩

theorem of_place (h : s.Held n now ∨ s.Fresh ∧ now = 0 ∧ t = 0) (hn : 2 ≤ n) (hn' : n ≤ 62)
    (hf : ∀ b, f b ↔ b < n ∧ (b = 0 ∨ (pow2 b : Int) ∣ t)) (hst : s.stop = t) {d : Int}
    (hd : 1 < TickCount.roundDown d) :
    Held n t ⟨s.kind, (Assign.place n f d s.bin).bin, s.stop⟩ := by
  have hbin0 : 0 ≤ s.bin := by
    rcases h with h | ⟨h, -⟩
    · exact Int.le_trans (by decide) h.pos
    · exact Int.le_of_eq h.1.symm
  obtain ⟨b, hb, hbn, hb62, -, hgrow, hpos⟩ := Assign.place_spec (f := f) hn hd hbin0
  have hb1 : 1 ≤ b := by
    refine hpos ?_
    rcases h with h | ⟨-, -, rfl⟩
    · exact .inl h.pos
    · exact .inr ((hf 1).2 ⟨by omega, .inr (Int.dvd_zero _)⟩)
  -- a shorter step divides the old one, and a longer one is due at the tick
  have hbt : (pow2 b : Int) ∣ t := by
    rcases hgrow with hle | hfb
    · rcases h with h | ⟨-, -, rfl⟩
      · have hle' : (pow2 b : Int) ∣ pow2 s.bin.toNat := natCast_pow2_dvd (by omega)
        exact Int.dvd_trans hle' (hst ▸ h.dvd_stop hn')
      · exact Int.dvd_zero _
    · rcases ((hf b).1 hfb).2 with rfl | hd
      · omega
      · exact hd
  have hpow := pow2_pos b
  rw [hb, hst]
  refine ⟨?_, ?_, ?_, Int.le_refl t, ?_⟩
  · show (1 : Int) ≤ b
    omega
  · exact Int.ofNat_lt.2 hbn
  · exact hbt
  · show t < t + TickCount.cadence b
    rw [TickCount.cadence_natCast hb1 (by omega)]
    omega

/-- A turn at a tick up to which no step is passed leaves a step in force. -/
theorem turn (h : s.Held n now ∨ s.Fresh ∧ now = 0 ∧ t = 0) (hn : 2 ≤ n) (hn' : n ≤ 62)
    (ht : now ≤ t) (hlt : s.Held n now → now < t) (hstop : t ≤ s.stop)
    (hf : ∀ b, f b ↔ b < n ∧ (b = 0 ∨ (pow2 b : Int) ∣ t)) (hs : s.TurnsTo n f P s') :
    s'.Held n t ∧ (s.stop = t → s'.stepStart = t) := by
  have hactive : f s.bin.toNat ↔ s.stop = t := active_iff h hn hn' hlt hstop hf
  rw [TurnsTo] at hs
  by_cases ha : f s.bin.toNat
  · have hst := hactive.1 ha
    rw [if_pos ha] at hs
    obtain ⟨d, -, hd, rfl⟩ := hs
    exact ⟨of_place h hn hn' hf hst hd, fun _ => hst⟩
  · rw [if_neg ha] at hs
    rw [hs]
    have hne : s.stop ≠ t := fun he => ha (hactive.2 he)
    refine ⟨?_, fun he => absurd he hne⟩
    rcases h with h | ⟨h, -, rfl⟩
    · exact ⟨h.pos, h.lt, h.dvd, Int.le_trans h.start_le ht, by omega⟩
    · exact absurd h.stop_eq hne

end Slot.Held

end BlockStep

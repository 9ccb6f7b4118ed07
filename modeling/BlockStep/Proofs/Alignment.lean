import BlockStep.Proofs.OnSchedule
import BlockStep.Proofs.Rational

namespace BlockStep

variable {α : Type} [Scalar α] {m : Nat}

namespace Slot.Held

variable {n : Nat} {now : Int} {s : Slot}

theorem bounds (h : s.Held n now) (hn : n ≤ 62) : 1 ≤ s.bin ∧ s.bin < n ∧
    (pow2 s.bin.toNat : Int) ∣ s.stepStart ∧ s.stepStart ≤ now ∧
      now < s.stepStart + pow2 s.bin.toNat := by
  have hlt := h.lt_stop
  rw [h.stop_eq hn] at hlt
  exact ⟨h.pos, h.lt, h.dvd, h.start_le, hlt⟩

end Slot.Held

namespace OnSchedule

variable {u : Setup α} {now : Tick} {mesh : MeshStep} {s s' : Ranks m (Stepper α u.bins)}

/-- Where the ranks have met, no step has been passed and the active particles are at their ends. -/
theorem synchronize {w : Ranks m (Option SnapshotWriter)} (h : OnSchedule u now s) (hu : u.IsMade)
    (hs : InStep u now mesh s)
    (hsync : Ranks.states? (fun i => Stepper.synchronize { u with writer := w i }) s = some s')
    (i : Fin (m + 1)) {l : Nat} {p : Particle α} (hl : (s i).store[l]? = some p) :
    (s' i).currentAbsolute u ≤ p.slot.stop ∧
      (l ∈ (s' i).active ↔ p.slot.stop = (s' i).currentAbsolute u) := by
  obtain ⟨next, hisNext, hle, hready⟩ := h.exists_isNext hu hs hsync
  obtain ⟨hi, hstore⟩ := hready i
  have hp := Array.mem_of_getElem? hl
  rw [Stepper.currentAbsolute, hi.current]
  refine ⟨hisNext.le_stop i p hp, ?_⟩
  rw [hi.lists.mem_iff, ← h.due_iff hu hisNext hle hp]
  simp only [Registry.isDue, Registry.isActive, hi.marked, hstore, hl]
  constructor
  · rintro ⟨q, hq, hd⟩
    cases hq
    exact hd
  · exact fun hd => ⟨p, rfl, hd⟩

end OnSchedule

namespace Fleet

variable {f : Fleet α m} {store : Ranks m (Store α)}

/-- No step of a particle is missed: after every cycle particles are inside aligned steps within an
epoch, and whenever the ranks meet, the steps that end there are those of the active particles. -/
theorem steps_end_on_time (hu : f.setup.IsMade) (hf : f.KeepsSchedule)
    (hfresh : ∀ i, ∀ p ∈ store i, p.bin = 0 ∧ p.stepStart = 0) {k : Nat}
    {s : Ranks m (Stepper α f.setup.bins)} (h : f.after? store k = some s) (i : Fin (m + 1)) :
    (0 < k → ∀ p ∈ (s i).store, (1 ≤ p.bin ∧ p.bin < f.setup.bins ∧
      (pow2 p.bin.toNat : Int) ∣ p.stepStart ∧ p.stepStart ≤ (s i).currentAbsolute f.setup ∧
        (s i).currentAbsolute f.setup < p.stepStart + pow2 p.bin.toNat) ∧
      ∀ epoch, p.stepStart < epoch * f.setup.timebase →
        p.stepStart + pow2 p.bin.toNat ≤ epoch * f.setup.timebase) ∧
    (∀ t, Ranks.states? (fun i => Stepper.synchronize (f.on i)) s = some t →
      ∀ l p, (s i).store[l]? = some p → (t i).currentAbsolute f.setup ≤ p.slot.stop ∧
        (l ∈ (t i).active ↔ p.slot.stop = (t i).currentAbsolute f.setup)) ∧
    ∀ s', f.after? store (k + 1) = some s' → ∀ l p, (s i).store[l]? = some p →
      (s' i).currentAbsolute f.setup ≤ p.slot.stop ∧
      (l ∈ (s' i).active ↔ p.slot.stop = (s' i).currentAbsolute f.setup) ∧
      ∃ p', (s' i).store[l]? = some p' ∧
        (l ∈ (s' i).active → p'.stepStart = (s' i).currentAbsolute f.setup) ∧
        (l ∉ (s' i).active → p'.slot = p.slot) := by
  have hslots : ∀ i, ∀ p ∈ store i, p.slot.Fresh := hfresh
  obtain ⟨now, mesh, hin, hon⟩ := exists_onSchedule hu hf hslots h
  refine ⟨fun hk p hp => ?_, fun t ht l p hl => hon.synchronize hu hin ht i hl,
    fun s' h' l p hl => ?_⟩
  · obtain ⟨j, rfl⟩ := Nat.exists_eq_add_of_lt hk
    rw [Nat.zero_add] at h
    have hheld := slot_held hu hf hslots h i p hp
    refine ⟨hheld.bounds hu.le_62, fun epoch he => ?_⟩
    have hstop := hheld.stop_le_epoch hu.le_62 he
    rwa [hheld.stop_eq hu.le_62] at hstop
  · obtain ⟨now, mesh, c, st, hin, hon, -, hst, hc⟩ := exists_leads hu hf hslots h h'
    obtain ⟨q, hq, hslot⟩ := Store.exists_of_slots_eq (hst i).symm hl
    obtain ⟨hle, hdue⟩ := hon.isDue_iff hu hin hst hc (Array.mem_of_getElem? hq)
    rw [hslot] at hle hdue
    have hran := hc.ran i
    rw [Stepper.currentAbsolute, hran.current, hran.mem_active hq, hdue]
    refine ⟨hle, Iff.rfl, _, hran.getElem?_store hq, ?_, ?_⟩
    · intro hstop
      rw [← hslot] at hstop
      exact (hon.turn hu hin hst hc (Array.mem_of_getElem? hq)).2 hstop
    · intro hstop
      rw [Course.slot_after, if_neg fun hd => hstop (hdue.1 hd), hslot]

theorem steps_end_on_time_sample : ∃ s, Sample.fleet.after? Sample.store 2 = some s ∧
    ∀ i, ∀ p ∈ (s i).store, (pow2 p.bin.toNat : Int) ∣ p.stepStart ∧
      (s i).currentAbsolute Sample.setup < p.stepStart + pow2 p.bin.toNat := by
  have hsome : (Sample.fleet.after? Sample.store 2).isSome := by decide +kernel
  obtain ⟨s, h⟩ := Option.isSome_iff_exists.1 hsome
  refine ⟨s, h, fun i p hp => ?_⟩
  have hend := steps_end_on_time Sample.isMade Sample.keepsSchedule Sample.bin_eq_zero h i
  have hp := (hend.1 (by decide) p hp).1
  exact ⟨hp.2.2.1, hp.2.2.2.2⟩

end Fleet

end BlockStep

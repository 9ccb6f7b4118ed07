import BlockStep.Proofs.Together
import Mathlib.Data.List.OfFn

namespace BlockStep

variable {α σ : Type} [Scalar α] {m n : Nat}

namespace Tick

variable {t : Tick} {timebase : Int}

omit [Scalar α] in
theorem normalized_eq (h0 : 0 ≤ t.localTick) (hlt : t.localTick < timebase) :
    t.normalized timebase = t := by
  have hepoch : (t.toAbsolute timebase).fdiv timebase = t.epoch := by
    rw [toAbsolute, Int.add_comm, Int.add_mul_fdiv_right _ _ (by omega),
      Int.fdiv_eq_ediv_of_nonneg _ (by omega), Int.ediv_eq_zero_of_lt h0 hlt, Int.zero_add]
  have hlocal : (t.toAbsolute timebase).fmod timebase = t.localTick := by
    rw [toAbsolute, Int.add_comm, Int.add_mul_fmod_self_right,
      Int.fmod_eq_emod_of_nonneg _ (by omega), Int.emod_eq_of_lt h0 hlt]
  rw [normalized, ofAbsolute, hepoch, hlocal]

def DueAfter (occupied : Nat → Prop) (current : Tick) (timebase : Int) : Set Int :=
  {t | current.toAbsolute timebase < t ∧
    (t = (current.epoch + 1) * timebase ∨ ∃ b, 0 < b ∧ occupied b ∧ (pow2 b : Int) ∣ t)}

/-- The next absolute tick at which an occupied bin is due; bin 0 is due at every tick. -/
structure IsNextDue (occupied : Nat → Prop) (current : Tick) (timebase next : Int) : Prop where
  again : occupied 0 → next = current.toAbsolute timebase
  first : ¬ occupied 0 → IsLeast (DueAfter occupied current timebase) next

namespace IsNextDue

variable {occupied : Nat → Prop} {current : Tick} {next next' : Int}

omit [Scalar α]

theorem unique (h : IsNextDue occupied current timebase next)
    (h' : IsNextDue occupied current timebase next') : next = next' := by
  by_cases h0 : occupied 0
  · exact (h.again h0).trans (h'.again h0).symm
  · exact (h.first h0).unique (h'.first h0)

theorem le (h : IsNextDue occupied current timebase next) :
    current.toAbsolute timebase ≤ next := by
  by_cases h0 : occupied 0
  · exact Int.le_of_eq (h.again h0).symm
  · exact Int.le_of_lt (h.first h0).1.1

theorem not_due (h : IsNextDue occupied current timebase next) {t : Int} {b : Nat}
    (hlt : current.toAbsolute timebase < t) (ht : t < next) (hb : occupied b) :
    ¬ (b = 0 ∨ (pow2 b : Int) ∣ t) := by
  have h0 : ¬ occupied 0 := fun h0 => by
    rw [h.again h0] at ht
    omega
  rintro (rfl | hd)
  · exact h0 hb
  · have hpos : 0 < b := Nat.pos_of_ne_zero fun hb0 => h0 (hb0 ▸ hb)
    have hle := (h.first h0).2 ⟨hlt, .inr ⟨b, hpos, hb, hd⟩⟩
    omega

end IsNextDue

end Tick

namespace Registry

variable {r : Registry n} {b : Nat}

/-- The number of particles in a bin of the table. -/
def held (r : Registry n) (b : Nat) : Int := r.count[b]?.getD 0

def Occupies (r : Registry n) (b : Nat) : Prop := r.held b ≠ 0

theorem Occupies.lt (h : r.Occupies b) : b < n := by
  by_contra hge
  rw [Occupies, held, Vector.getElem?_eq_none (by omega)] at h
  exact h rfl

theorem mem_occupied : b ∈ r.occupied ↔ r.Occupies b := by
  rw [occupied, List.mem_filter, List.mem_range, bne_iff_ne]
  exact and_iff_right_of_imp Occupies.lt

theorem nextMultiple_le {tick cadence t : Int} (hc : 0 < cadence) (hd : cadence ∣ t)
    (ht : tick < t) : nextMultiple tick cadence ≤ t := by
  obtain ⟨k, rfl⟩ := hd
  have hlt : tick / cadence < k := Int.ediv_lt_of_lt_mul hc (by rwa [Int.mul_comm] at ht)
  have hle : (tick / cadence + 1) * cadence ≤ k * cadence :=
    Int.mul_le_mul_of_nonneg_right (by omega) (by omega)
  rw [nextMultiple, Int.fdiv_eq_ediv_of_nonneg _ (by omega), Int.mul_comm cadence k]
  rw [Int.add_mul, Int.one_mul] at hle
  exact hle

section Sync

variable {r : Registry (n + 1)} {current : Tick}

theorem nextSync_of_occupies (h : r.Occupies 0) (timebase : Int) :
    r.nextSync current timebase = current := by
  have h0 : r.count[0]?.getD 0 ≠ 0 := h
  rw [nextSync, if_pos h0]

theorem absolute_nextMultiple (hb : b ≤ n) :
    current.epoch * pow2 n + nextMultiple current.localTick (pow2 b) =
      nextMultiple (current.toAbsolute (pow2 n)) (pow2 b) := by
  have hd : (pow2 b : Int) ∣ current.epoch * pow2 n :=
    Int.dvd_mul_of_dvd_right (natCast_pow2_dvd hb)
  exact (nextMultiple_add _ _ (Int.natCast_pos.2 (pow2_pos b)) hd).symm

theorem isLeast_nextSync (h : ¬ r.Occupies 0) (hlt : current.localTick < pow2 n) :
    IsLeast (Tick.DueAfter r.Occupies current (pow2 n))
      ((r.nextSync current (pow2 n)).toAbsolute (pow2 n)) := by
  have hend : (current.epoch + 1) * (pow2 n : Int) = current.epoch * pow2 n + pow2 n := by
    rw [Int.add_mul, Int.one_mul]
  have hcandidate {j : Int} :
      j ∈ (r.occupied.filter (0 < ·)).map (fun b => nextMultiple current.localTick (pow2 b)) ↔
        ∃ b : Nat, 0 < b ∧ r.Occupies b ∧ nextMultiple current.localTick (pow2 b) = j := by
    simp only [List.mem_map, List.mem_filter, mem_occupied, decide_eq_true_eq]
    constructor
    · rintro ⟨b, ⟨hocc, hpos⟩, hj⟩
      exact ⟨b, hpos, hocc, hj⟩
    · rintro ⟨b, hpos, hocc, hj⟩
      exact ⟨b, ⟨hocc, hpos⟩, hj⟩
  obtain ⟨hmem, hle⟩ := isLeast_foldl_min ((r.occupied.filter (0 < ·)).map
    fun b => nextMultiple current.localTick (pow2 b)) (pow2 n)
  have h0 : ¬ r.count[0]?.getD 0 ≠ 0 := h
  rw [nextSync, if_neg h0, Tick.toAbsolute]
  dsimp only
  constructor
  · rcases hmem with heq | hmem
    · rw [heq]
      exact ⟨by rw [Tick.toAbsolute]; omega, .inl hend.symm⟩
    · obtain ⟨b, hpos, hocc, hj⟩ := hcandidate.1 hmem
      have hb : b ≤ n := Nat.le_of_lt_succ hocc.lt
      rw [← hj, absolute_nextMultiple hb]
      exact ⟨lt_nextMultiple _ (Int.natCast_pos.2 (pow2_pos b)),
        .inr ⟨b, hpos, hocc, dvd_nextMultiple _ _⟩⟩
  · rintro t ⟨hafter, rfl | ⟨b, hpos, hocc, hd⟩⟩
    · rw [hend]
      exact Int.add_le_add_left (hle (.inl rfl)) _
    · have hb : b ≤ n := Nat.le_of_lt_succ hocc.lt
      have hfirst := nextMultiple_le (Int.natCast_pos.2 (pow2_pos b)) hd hafter
      have hmost := hle (.inr (hcandidate.2 ⟨b, hpos, hocc, rfl⟩))
      rw [← absolute_nextMultiple hb] at hfirst
      omega

theorem isNextDue_nextSync (hlt : current.localTick < pow2 n) :
    Tick.IsNextDue r.Occupies current (pow2 n)
      ((r.nextSync current (pow2 n)).toAbsolute (pow2 n)) where
  again h := by rw [nextSync_of_occupies h]
  first h := isLeast_nextSync h hlt

theorem isActive_markDue (next : Tick) (b : Nat) :
    (r.markDue next).1.isActive b ↔ b ≤ n ∧ (b = 0 ∨ (pow2 b : Int) ∣ next.toAbsolute (pow2 n)) :=
  (dueMask_dvd (n + 1) next b).trans (and_congr_left fun _ => Nat.lt_succ_iff)

end Sync

end Registry

namespace Ranks

variable {r : Ranks m (Registry (n + 1))} {current : Tick} {b : Nat}

def Occupy (r : Ranks m (Registry n)) (b : Nat) : Prop := ∃ i, (r i).Occupies b

/-- What ranks find that start from one tick. -/
def nextSync (r : Ranks m (Registry n)) (current : Tick) (timebase : Int) : Tick :=
  Tick.ofAbsolute (least fun i => ((r i).nextSync current timebase).toAbsolute timebase) timebase

theorem exists_dueAfter {t : Int} {timebase : Int} :
    (∃ i, t ∈ Tick.DueAfter (r i).Occupies current timebase) ↔
      t ∈ Tick.DueAfter (Occupy r) current timebase := by
  constructor
  · rintro ⟨i, hlt, hend | ⟨b, hpos, hb, hd⟩⟩
    · exact ⟨hlt, .inl hend⟩
    · exact ⟨hlt, .inr ⟨b, hpos, ⟨i, hb⟩, hd⟩⟩
  · rintro ⟨hlt, hend | ⟨b, hpos, ⟨i, hb⟩, hd⟩⟩
    · exact ⟨0, hlt, .inl hend⟩
    · exact ⟨i, hlt, .inr ⟨b, hpos, hb, hd⟩⟩

theorem isNextDue_nextSync (hlt : current.localTick < pow2 n) :
    Tick.IsNextDue (Occupy r) current (pow2 n)
      ((nextSync r current (pow2 n)).toAbsolute (pow2 n)) := by
  have hrank (i : Fin (m + 1)) := Registry.isNextDue_nextSync (r := r i) hlt
  rw [nextSync, Tick.toAbsolute_ofAbsolute]
  constructor
  · rintro ⟨i, hi⟩
    obtain ⟨j, hj⟩ := exists_eq_least fun i => ((r i).nextSync current (pow2 n)).toAbsolute (pow2 n)
    have hle := least_le (fun i => ((r i).nextSync current (pow2 n)).toAbsolute (pow2 n)) i
    rw [(hrank i).again hi] at hle
    exact Int.le_antisymm hle (by rw [hj]; exact (hrank j).le)
  · intro hnone
    have hleast := isLeast_least fun i => (hrank i).first fun hi => hnone ⟨i, hi⟩
    rwa [Set.ext fun t => exists_dueAfter] at hleast

theorem total_eq_zero {v : Ranks m Int} (h : ∀ i, v i = 0) : total v = 0 := by
  rw [total_eq, funext h, List.ofFn_const, Registry.sum_replicate_zero]

theorem occupies_iff_of_total {w : Registry (n + 1)} (h : ∀ i b, 0 ≤ (r i).held b)
    (hw : ∀ b, w.held b = total fun i => (r i).held b) : w.Occupies b ↔ Occupy r b := by
  constructor
  · intro hne
    by_contra hnone
    have hzero (i : Fin (m + 1)) : (r i).held b = 0 := by
      by_contra hi
      exact hnone ⟨i, hi⟩
    rw [Registry.Occupies, hw b, total_eq_zero hzero] at hne
    exact hne rfl
  · rintro ⟨i, hi⟩ htotal
    rw [hw b] at htotal
    exact hi (eq_zero_of_total (fun i => h i b) htotal i)

/-- Ranks that start from one tick end together at the next due tick of all their bins. With bin 0
occupied it is the current tick, and else the first tick behind it that is a multiple of the cadence
of an occupied bin or the end of the epoch. It is the tick that one rank with the particles of all
would find; the bins activated there are those that are due, and none with particles was due
before. -/
theorem sync_is_next_due (h0 : 0 ≤ current.localTick) (hlt : current.localTick < pow2 n)
    (s : Ranks m σ) :
    ∃ next : Tick,
      Finish (fun i => ((r i).agreeSync current (pow2 n) : Act α σ Tick)) s (fun _ => .ok next) s ∧
      (0 ≤ next.localTick ∧ next.localTick < pow2 n) ∧
      ((∃ i, (r i).Occupies 0) → next = current) ∧
      ((¬ ∃ i, (r i).Occupies 0) →
        IsLeast {t : Int | current.toAbsolute (pow2 n) < t ∧ (t = (current.epoch + 1) * pow2 n ∨
          ∃ b, 0 < b ∧ (∃ i, (r i).Occupies b) ∧ (pow2 b : Int) ∣ t)} (next.toAbsolute (pow2 n))) ∧
      (next.toAbsolute (pow2 n) = (current.epoch + 1) * pow2 n → next = ⟨current.epoch + 1, 0⟩) ∧
      (∀ w : Registry (n + 1), (∀ i b, 0 ≤ (r i).held b) →
        (∀ b, w.held b = total fun i => (r i).held b) →
        (w.nextSync current (pow2 n)).normalized (pow2 n) = next) ∧
      (∀ i b, ((r i).markDue next).1.isActive b ↔
        b ≤ n ∧ (b = 0 ∨ (pow2 b : Int) ∣ next.toAbsolute (pow2 n))) ∧
      ∀ t, current.toAbsolute (pow2 n) < t → t < next.toAbsolute (pow2 n) →
        ∀ i b, (r i).Occupies b → ¬ (b = 0 ∨ (pow2 b : Int) ∣ t) := by
  have htb : (0 : Int) < pow2 n := Int.natCast_pos.2 (pow2_pos n)
  have hdue := isNextDue_nextSync (r := r) hlt
  have hrolled (t : Tick) :
      (nextSync r current (pow2 n)).toAbsolute (pow2 n) = t.toAbsolute (pow2 n) →
        nextSync r current (pow2 n) = t.normalized (pow2 n) := by
    intro heq
    rw [Tick.normalized, ← heq, nextSync, Tick.toAbsolute_ofAbsolute]
  refine ⟨nextSync r current (pow2 n), finish_agreeSync (fun _ => rfl) (by omega) s,
    ⟨Int.fmod_nonneg_of_pos _ htb, Int.fmod_lt_of_pos _ htb⟩, ?_, hdue.first, ?_, ?_, ?_, ?_⟩
  · intro hi
    rw [hrolled current (hdue.again hi), Tick.normalized_eq h0 hlt]
  · intro hend
    rw [hrolled ⟨current.epoch + 1, 0⟩ (by rw [hend, Tick.toAbsolute, Int.add_zero]),
      Tick.normalized_eq (Int.le_refl 0) htb]
  · intro w hnonneg hw
    have hoccupy : w.Occupies = Occupy r := funext fun b =>
      propext (occupies_iff_of_total hnonneg hw)
    have hone := Registry.isNextDue_nextSync (r := w) hlt
    rw [hoccupy] at hone
    exact (hrolled _ (hdue.unique hone)).symm
  · exact fun i b => Registry.isActive_markDue _ b
  · exact fun t hafter hbefore i b hb => hdue.not_due hafter hbefore ⟨i, hb⟩

def sampleRegistries : Ranks 1 (Registry 4) :=
  fun i => { Registry.empty 4 with count := #v[0, 0, i.val, 0] }

theorem sync_is_next_due_sample : ∃ next : Tick,
    Finish (fun i => ((sampleRegistries i).agreeSync ⟨1, 5⟩ (pow2 3) : Act Rat Unit Tick))
      (fun _ => ()) (fun _ => .ok next) (fun _ => ()) ∧
    IsLeast {t : Int | 13 < t ∧ (t = 16 ∨
      ∃ b, 0 < b ∧ (∃ i, (sampleRegistries i).Occupies b) ∧ (pow2 b : Int) ∣ t)}
      (next.toAbsolute (pow2 3)) := by
  have hempty : ∀ i, (sampleRegistries i).held 0 = 0 := by
    decide
  have hnonneg : 0 ≤ (⟨1, 5⟩ : Tick).localTick := by
    decide
  have hlt : (⟨1, 5⟩ : Tick).localTick < pow2 3 := by
    decide
  obtain ⟨next, hfinish, -, -, hfirst, -⟩ :=
    sync_is_next_due (α := Rat) (r := sampleRegistries) hnonneg hlt fun _ => ()
  exact ⟨next, hfinish, hfirst fun ⟨i, hi⟩ => hi (hempty i)⟩

end Ranks

end BlockStep

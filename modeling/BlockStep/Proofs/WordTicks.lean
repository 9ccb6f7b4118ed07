import BlockStep.Proofs.Abort
import BlockStep.Proofs.Progress
import BlockStep.Proofs.Tiling
import BlockStep.Proofs.WordKicks

namespace BlockStep

variable {α : Type} [Scalar α] {m n : Nat}

namespace TickCount

theorem cadence_bounds {bin : Int} (h : 0 ≤ bin) (hlt : bin < n) (hn : n ≤ 62) :
    0 ≤ cadence bin ∧ cadence bin ≤ pow2 (n - 1) := by
  by_cases hpos : 0 < bin
  · rw [cadence_of_pos hpos (by omega)]
    constructor
    · exact Int.natCast_nonneg _
    · exact Int.ofNat_le.2 (pow2_le (by omega))
  · obtain rfl : bin = 0 := by omega
    exact ⟨Int.le_refl 0, Int.natCast_nonneg _⟩

end TickCount

theorem Slot.Held.start_nonneg {s : Slot} {now : Int} (h : s.Held n now) (hn : n ≤ 62)
    (hnow : 0 ≤ now) : 0 ≤ s.stepStart := by
  have hlt := h.lt_stop
  rw [h.stop_eq hn] at hlt
  obtain ⟨q, hq⟩ := h.dvd
  have hpos : (0 : Int) < pow2 s.bin.toNat := Int.natCast_pos.2 (pow2_pos _)
  by_contra hneg
  have hlast : q ≤ -1 := by
    by_contra hq'
    have hle := Int.mul_nonneg (Int.le_of_lt hpos) (show 0 ≤ q by omega)
    omega
  have hle := Int.mul_le_mul_of_nonneg_left hlast (Int.le_of_lt hpos)
  omega

namespace Setup.IsMade

variable {u : Setup α}

omit [Scalar α] in
theorem endTick_add_le (hu : u.IsMade) (h : u.timeline.endTick ≤ Word.greatest) :
    u.timeline.endTick + u.timebase ≤ Word.greatest + 1 := by
  have hbins := hu.le_62
  have hpos := hu.timebase_pos
  obtain ⟨q, hq⟩ : u.timebase ∣ Word.greatest + 1 := by
    exact natCast_pow2_dvd (m := u.bins - 1) (n := 63) (by omega)
  rw [hu.endTick_eq] at h ⊢
  have hlt : (u.timeline.epochs : Int) < q := by
    apply Int.lt_of_mul_lt_mul_right (a := u.timebase) ?_ (Int.le_of_lt hpos)
    rw [Int.mul_comm q, ← hq]
    omega
  have hle := Int.mul_le_mul_of_nonneg_right (show (u.timeline.epochs : Int) + 1 ≤ q from hlt)
    (Int.le_of_lt hpos)
  rw [Int.add_mul, Int.one_mul, Int.mul_comm q, ← hq] at hle
  exact hle

omit [Scalar α] in
theorem isTick_kickPoint (hu : u.IsMade) (hend : u.timeline.endTick ≤ Word.greatest)
    {start step : Int}
    (h : 0 ≤ start) (hle : start ≤ u.timeline.endTick) (hs : 0 ≤ step) (hs' : step ≤ u.timebase) :
    Word.IsTick (kickPoint start step) := by
  have hsum := hu.endTick_add_le hend
  have hpos := hu.timebase_pos
  have heven := hu.even_timebase
  rw [kickPoint]
  constructor
  · omega
  · omega

omit [Scalar α] in
theorem isTick_cadence (hu : u.IsMade) {step : Int} (h : 0 ≤ step) (hle : step ≤ u.timebase) :
    Word.IsTick step := by
  have hmost := hu.timebase_le
  exact Word.isTick_of_le (by decide) h (Int.le_trans hle hmost)

end Setup.IsMade

namespace OnSchedule

variable {u : Setup α} {now next : Tick} {mesh : MeshStep} {s : Ranks m (Stepper α u.bins)}
  {i : Fin (m + 1)} {p : Particle α}

omit [Scalar α] in
theorem start_bounds (h : OnSchedule u now s) (hu : u.IsMade) (hnow : 0 ≤ now.toAbsolute u.timebase)
    (hp : p ∈ (s i).store) : 0 ≤ p.stepStart ∧ p.stepStart ≤ now.toAbsolute u.timebase := by
  rcases h.slots with hheld | ⟨rfl, hfresh⟩
  · have hslot := hheld i p hp
    exact ⟨hslot.start_nonneg hu.le_62 hnow, hslot.start_le⟩
  · have hstart : p.stepStart = 0 := (hfresh i p hp).2
    rw [hstart, Tick.toAbsolute_zero]
    exact ⟨Int.le_refl 0, Int.le_refl 0⟩

omit [Scalar α] in
theorem cadence_bounds (h : OnSchedule u now s) (hu : u.IsMade) (hp : p ∈ (s i).store) :
    0 ≤ TickCount.cadence p.bin ∧ TickCount.cadence p.bin ≤ u.timebase := by
  obtain ⟨hpos, hlt⟩ := h.inTable hu i p hp
  exact TickCount.cadence_bounds hpos hlt hu.le_62

omit [Scalar α] in
theorem isTick_step (h : OnSchedule u now s) (hu : u.IsMade)
    (hend : u.timeline.endTick ≤ Word.greatest)
    (hnow : 0 ≤ now.toAbsolute u.timebase) (hle : now.toAbsolute u.timebase ≤ u.timeline.endTick)
    (hp : p ∈ (s i).store) : Word.IsTick p.stepStart ∧ Word.IsTick p.midpoint := by
  obtain ⟨hpos, hstart⟩ := h.start_bounds hu hnow hp
  obtain ⟨hcadence, hbase⟩ := h.cadence_bounds hu hp
  have hlast := Int.le_trans hstart hle
  exact ⟨Word.isTick_of_le hend hpos hlast,
    hu.isTick_kickPoint hend hpos hlast hcadence hbase⟩

omit [Scalar α] in
theorem isTick_nextSync (h : OnSchedule u now s) (hu : u.IsMade) (hin : InStep u now mesh s)
    (hend : u.timeline.endTick ≤ Word.greatest) (hnow : 0 ≤ now.toAbsolute u.timebase)
    (hlt : now.toAbsolute u.timebase < u.timeline.endTick) (i : Fin (m + 1)) :
    Word.IsTick (((s i).registry.nextSync (s i).current u.timebase).toAbsolute u.timebase) := by
  rw [hin.current i]
  obtain ⟨hmem, hleast⟩ := (hin.counts i).isLeast_nextSync h.lt_timebase (h.inTable hu i)
  have hepoch : (now.epoch + 1) * u.timebase ≤ u.timeline.endTick := by
    rw [hu.endTick_eq] at hlt ⊢
    exact h.epoch_le hlt
  apply Word.isTick_of_le hend ?_ (Int.le_trans (hleast (.inl rfl)) hepoch)
  rcases hmem with hmem | ⟨p, hp, hmem⟩
  · have hbase := h.lt_timebase
    rw [hmem, Int.add_mul, Int.one_mul]
    rw [Tick.toAbsolute] at hnow
    omega
  · rw [hmem, h.dueTick_eq hu hp]
    exact Int.add_nonneg (h.start_bounds hu hnow hp).1 (h.cadence_bounds hu hp).1

end OnSchedule

/-- Whether they fail or not, and whatever they get from other ranks, the forces of a rank leave the
schedule and the ticks of the last kicks. -/
def Forces.HoldMarks (forces : Option (Forces α)) : Prop :=
  ∀ k active tick, (Forces.act forces k active tick).Keeps Store.marks

theorem Forces.holdMarks_none : Forces.HoldMarks (none : Option (Forces α)) :=
  fun _ _ _ => .pure ()

theorem Forces.HoldMarks.keepSlots {forces : Option (Forces α)} (h : Forces.HoldMarks forces) :
    Forces.KeepSlots forces :=
  fun k active tick store => (h k active tick store).mono
    (fun _ _ hst => Store.slots_of_marks hst) fun _ _ _ => trivial

namespace Stepper

theorem keeps_onStore_of {β γ : Type} {g : Store α → γ} {x : Act α (Store α) β} (h : x.Keeps g) :
    (onStore x : Step α n β).Keeps fun s => g s.store :=
  fun s => Act.always_within.2 (h s.store)

theorem keeps_prepare_marks {u : Setup α} {forces : Option (Forces α)}
    (hf : Forces.HoldMarks forces) (tick : Tick) :
    (prepare u forces tick : Step α n Nat).Keeps fun s => s.store.marks := by
  have hcall : (callForces forces tick : Step α n Unit).Keeps fun s => s.store.marks := by
    rw [callForces_eq]
    exact .get_bind fun s => Act.Keeps.set_bind rfl (keeps_onStore_of (hf _ _ _))
  have hrelax : (relax u : Step α n Unit).Keeps fun s => s.store.marks :=
    .ite (.bind (keeps_onStore_of (Glass.keeps_make _)) fun _ => .pure _) (.pure _)
  exact .bind (.modify fun _ => rfl) fun _ => .bind hcall fun _ => .bind .get fun _ =>
    .bind (.modify fun _ => rfl) fun _ => .bind hrelax fun _ => .pure _

/-- A rank on the way to a tick, where all is written in words, whatever it allots there. -/
structure InWords (u : Setup α) (next : Tick) (s : Stepper α n) : Prop where
  ahead : currentAbsolute u s ≤ next.toAbsolute u.timebase
  store : s.store.InWords
  allots : ∀ (t : Stepper α n) (a : Allotment α), t.Ready u next s.mesh →
    t.store.slots = s.store.slots → a.IsFor u t → a.InWords u.timebase t

namespace InWords

variable {u : Setup α} {forces : Option (Forces α)} {next : Tick} {s t : Stepper α n}
  {g : KickSource α} (h : s.InWords u next)

include h

theorem always_land (hf : Forces.HoldMarks forces) :
    (land u forces s next).Always (fun _ t => t.store.InWords) s fun _ t =>
      t.store.InWords ∧ t.Ready u next s.mesh ∧ t.store.slots = s.store.slots := by
  have hmarks : (land u forces s next : Step α n _).Keeps fun s => s.store.marks := by
    refine .bind (keeps_arrive_of (fun _ _ _ _ _ _ _ => rfl) s next) fun r => ?_
    exact .bind (keeps_prepare_marks hf r.1) fun _ => .pure _
  have hready := always_land_ready (E := fun _ => True) (fun _ _ => trivial) hf.keepSlots h.ahead
  apply (hready.and (hmarks s)).mono
  · exact fun _ t ht => ⟨h.store.of_marks ht.2, ht.1⟩
  · exact fun _ t ht => h.store.of_marks ht.2

theorem always_choose (ht : t.Ready u next s.mesh) (hst : t.store.slots = s.store.slots) :
    (choose u t).Always (fun _ t' => t' = t) t fun a t' =>
      t' = t ∧ a.InWords u.timebase t ∧ (currentAbsolute u t = t.mesh.stop →
        TickCount.IsStep a.most) := by
  apply ((Stepper.always_choose ht).and (keeps_choose (g := id) t t)).mono
  · rintro a t' ⟨⟨rfl, ha⟩, -⟩
    refine ⟨rfl, h.allots t' a ht hst ha, fun hat => ?_⟩
    obtain ⟨stats, hstats⟩ := ha.renewed hat
    exact MeshStep.isStep_of_ticksOf hstats
  · exact fun _ _ ht => ht.2

theorem always_proceed (ht : t.Ready u next s.mesh) (hslots : t.store.slots = s.store.slots)
    (hst : t.store.InWords) (toMiddle : Bool) :
    (proceed u toMiddle).Always (fun _ t => t.store.InWords) t fun _ t => t.store.InWords := by
  rw [Act.Always, proceed_apply, ← Act.Always]
  apply Act.always_bind.2
  apply (h.always_choose ht hslots).mono
  · rintro a _ ⟨rfl, ha, hmost⟩
    exact always_carryOut_inWords ha hst toMiddle hmost
  · rintro _ _ rfl
    exact hst

theorem alike_proceed (hg : g.EqOnWords u.kicker.source) (ht : t.Ready u next s.mesh)
    (hslots : t.store.slots = s.store.slots) (hst : t.store.InWords) (toMiddle : Bool) :
    (proceed u toMiddle).Alike (proceed (u.withSource g) toMiddle) t := by
  rw [proceed, proceed]
  apply Act.Alike.get_bind
  apply Act.Alike.bind_left (h.always_choose ht hslots)
  rintro a _ ⟨rfl, ha, -⟩
  exact alike_carryOut ha hst hg toMiddle

/-- A rank that comes to the sum of its faults has written words. -/
theorem always_tally (hf : Forces.HoldMarks forces) : (do
      let e ← land u forces s next
      let t ← Act.get
      let a ← choose u t
      let _ ← turnAll u true t (t.turns a.placed)
      pure ⟨e, t, a⟩ : Step α n (Tally α n)).Always (fun _ _ => True) s fun r t =>
        r.allotment.InWords u.timebase r.rank ∧ t.store.InWords := by
  apply Act.always_bind.2
  apply (h.always_land hf).mono ?_ fun _ _ _ => trivial
  rintro e t ⟨hst, ht, hslots⟩
  apply Act.always_bind.2
  apply Act.always_get.2
  apply Act.always_bind.2
  apply (h.always_choose ht hslots).mono ?_ fun _ _ _ => trivial
  rintro a _ ⟨rfl, ha, -⟩
  apply Act.always_bind.2
  apply (always_turnAll_inWords ha.turns hst true).mono ?_ fun _ _ _ => trivial
  exact fun _ t ht => Act.always_pure.2 ⟨ha, ht⟩

theorem always_closing (hf : Forces.HoldMarks forces) :
    (closing u forces s next).Always (fun _ t => t.store.InWords) s
      fun _ t => t.store.InWords := by
  rw [closing]
  apply Act.always_bind.2
  apply Act.always_onFault.2
  apply Act.always_bind.2
  apply (h.always_land hf).mono ?_ fun _ _ ht => ht
  rintro e t ⟨hst, ht, hslots⟩
  apply Act.always_bind.2
  apply (h.always_proceed ht hslots hst true).mono ?_ fun _ _ ht => ht
  intro moved t' ht'
  simp only [Act.always_bind, Act.always_get, Act.always_set, Act.always_pure]
  exact ht'

theorem alike_closing (hg : g.EqOnWords u.kicker.source) (hf : Forces.HoldMarks forces) :
    (closing u forces s next).Alike (closing (u.withSource g) forces s next) s := by
  have hland : land (u.withSource g) forces s next = land u forces s next := rfl
  rw [closing, closing, hland]
  apply Act.Alike.bind_right
  apply Act.Alike.onFault
  apply Act.Alike.bind_left (h.always_land hf)
  rintro e t ⟨hst, ht, hslots⟩
  exact (h.alike_proceed hg ht hslots hst true).bind_right _

end InWords

end Stepper

namespace OnSchedule

variable {u : Setup α} {now next : Tick} {mesh : MeshStep} {s : Ranks m (Stepper α u.bins)}
  {i : Fin (m + 1)} {t : Stepper α u.bins} {a : Allotment α}

section Turns

variable (h : OnSchedule u now s) (hu : u.IsMade) (hnext : IsNext u now next s)
  (hle : now.toAbsolute u.timebase ≤ next.toAbsolute u.timebase) (ht : t.Ready u next mesh)
  (hst : t.store.slots = (s i).store.slots) (hturns : ∃ W : Particle α → Int,
    t.turns a.placed = t.turnsOf fun p =>
      Assign.place u.bins t.registry.isActive (W p) p.bin)

include h hu hnext hle ht hst hturns

theorem turn_of_mem {e : Stepper.Turn α} (he : e ∈ t.turns a.placed) :
    (∃ q ∈ (s i).store, q.slot = e.before.slot) ∧ e.boundary = next.toAbsolute u.timebase ∧
      ∃ d, e.next = Assign.place u.bins t.registry.isActive d e.before.bin := by
  obtain ⟨W, hW⟩ := hturns
  rw [hW] at he
  obtain ⟨l, hl, rfl⟩ := List.mem_map.1 he
  obtain ⟨hmem, hdue⟩ := ht.lists.getElem?_of_mem hl
  obtain ⟨q, hq, hslot⟩ := Store.exists_of_slots_eq hst hmem
  have hqs := Array.mem_of_getElem? hq
  have hbin : q.bin = (t.store.particle l).bin := congrArg Slot.bin hslot
  rw [Registry.isDue, Registry.isActive, ht.marked, ← hbin] at hdue
  have hstop := (h.due_iff hu hnext hle hqs).1 hdue
  rw [hslot] at hstop
  exact ⟨⟨q, hqs, hslot⟩, hstop, W (t.store.particle l), rfl⟩

theorem turn_inWords (hend : u.timeline.endTick ≤ Word.greatest)
    (hnow : 0 ≤ now.toAbsolute u.timebase)
    (hlast : next.toAbsolute u.timebase ≤ u.timeline.endTick) :
    ∀ e ∈ t.turns a.placed, e.InWords := by
  intro e he
  obtain ⟨⟨q, hq, hslot⟩, hb, d, hd⟩ := h.turn_of_mem hu hnext hle ht hst hturns he
  obtain ⟨hbin, hbins⟩ := h.inTable hu i q hq
  have hsame : q.bin = e.before.bin := congrArg Slot.bin hslot
  rw [hsame] at hbin hbins
  have hplaced : 0 ≤ e.next.bin ∧ e.next.bin < u.bins := by
    rw [hd]
    exact Assign.place_inTable hu.two_le hbin hbins
  have hticks : e.next.ticks = TickCount.cadence e.next.bin := by
    rw [hd]
    rfl
  have hcadence := TickCount.cadence_bounds hplaced.1 hplaced.2 hu.le_62
  have hold := TickCount.cadence_bounds hbin hbins hu.le_62
  have hboundary : Word.IsTick e.boundary := by
    rw [hb]
    exact Word.isTick_of_le hend (Int.le_trans hnow hle) hlast
  have hmiddle : Word.IsTick (kickPoint e.boundary e.next.ticks) := by
    rw [hb, hticks]
    exact hu.isTick_kickPoint hend (Int.le_trans hnow hle) hlast hcadence.1 hcadence.2
  have hmid := (h.isTick_step hu hend hnow (Int.le_trans hle hlast) hq).2
  rw [Particle.midpoint_of_slot hslot] at hmid
  constructor
  · exact hboundary
  · exact hu.isTick_cadence hcadence.1 hcadence.2
  · intro toMiddle
    have hle' : e.before.midpoint ≤ e.boundary := by
      rw [Particle.midpoint, kickPoint, Stepper.Turn.boundary]
      omega
    cases toMiddle with
    | false => exact ⟨hmid, hboundary, hle'⟩
    | true =>
      refine ⟨hmid, hmiddle, Int.le_trans hle' ?_⟩
      show e.boundary ≤ kickPoint e.boundary e.next.ticks
      rw [kickPoint, hticks]
      omega

end Turns

theorem inWords (h : OnSchedule u now s) (hu : u.IsMade) (hend : u.timeline.endTick ≤ Word.greatest)
    (hnext : IsNext u now next s) (hnow : 0 ≤ now.toAbsolute u.timebase)
    (hle : now.toAbsolute u.timebase ≤ next.toAbsolute u.timebase)
    (hlast : next.toAbsolute u.timebase ≤ u.timeline.endTick) (ht : t.Ready u next mesh)
    (hst : t.store.slots = (s i).store.slots) (hturns : ∃ W : Particle α → Int,
      t.turns a.placed = t.turnsOf fun p =>
        Assign.place u.bins t.registry.isActive (W p) p.bin)
    (hmesh : 0 ≤ mesh.start) (hstep : MeshStep.IsWithin u.timebase mesh.step)
    (hmost : t.current.toAbsolute u.timebase = t.mesh.stop → MeshStep.IsWithin u.timebase a.most) :
    a.InWords u.timebase t := by
  constructor
  · exact h.turn_inWords hu hnext hle ht hst hturns hend hnow hlast
  · intro hat
    obtain ⟨hlength, hbase⟩ := hmost hat
    have hpos := Int.le_trans hnow hle
    have hnonneg := hstep.1.nonneg
    have hstop : mesh.stop = next.toAbsolute u.timebase := by
      rw [← ht.mesh, ← hat, ht.current]
    have hstart : mesh.start ≤ u.timeline.endTick := by
      rw [MeshStep.stop] at hstop
      omega
    rw [ht.mesh, hstop]
    exact ⟨hu.isTick_kickPoint hend hmesh hstart hnonneg hstep.2, Word.isTick_of_le hend hpos hlast,
      hu.isTick_kickPoint hend hpos hlast hlength.nonneg hbase⟩

end OnSchedule

namespace Fleet

variable {f : Fleet α m} {store : Ranks m (Store α)} {k : Nat}
  {s : Ranks m (Stepper α f.setup.bins)}

omit [Scalar α] in
/-- The same ranks with another source of kick factors. -/
def withSource (f : Fleet α m) (g : KickSource α) : Fleet α m :=
  { f with setup := f.setup.withSource g }

theorem mesh_start_bounds (hu : f.setup.IsMade) (hf : f.KeepsSchedule)
    (hfresh : ∀ i, ∀ p ∈ store i, p.slot.Fresh) (h : f.after? store k = some s) (i : Fin (m + 1)) :
    0 ≤ (s i).mesh.start ∧ (s i).mesh.start ≤ f.setup.timeline.endTick := by
  induction k generalizing s i with
  | zero =>
    rw [(isFirst_of_after? h i).mesh, hu.endTick_eq]
    exact ⟨Int.le_refl 0, Int.mul_nonneg (Int.natCast_nonneg _) (Int.le_of_lt hu.timebase_pos)⟩
  | succ k ih =>
    obtain ⟨t, ht, -⟩ := after?_succ.1 h
    obtain ⟨now, mesh, c, st, hin, -, -, -, hc⟩ := exists_leads hu hf hfresh ht h
    have hcurrent := current_bounds hu hf hfresh h i
    rw [Stepper.currentAbsolute, (hc.ran i).current] at hcurrent
    rw [(hc.ran i).mesh, Course.meshAfter]
    split
    next hm =>
      rw [Course.atMesh, beq_iff_eq] at hm
      rwa [hm] at hcurrent
    next =>
      rw [← hin.mesh i]
      exact ih ht i

section Words

variable (hu : f.setup.IsMade) (hend : f.setup.timeline.endTick ≤ Word.greatest)
  (hf : f.KeepsSchedule) (hforces : ∀ k i, Forces.HoldMarks (f.forces k i))
  (hfresh : ∀ i, ∀ p ∈ store i, p.bin = 0 ∧ p.stepStart = 0 ∧ p.kickTick = 0)
  (h : f.after? store k = some s)

include hu hend hf hforces hfresh h

/-- Ranks before the end of a run agree on a tick, and on the way there they write words. -/
theorem exists_inWords [Scalar.Ordered α] (hst : ∀ i, (s i).store.InWords)
    (hopen : ∀ i, ¬ Stepper.isFinished (f.on i) (s i)) : ∃ next : Tick,
      Ranks.Finish (fun _ => Stepper.agree f.setup.timebase) s
        (fun i => .ok ({ s i with phase := .sync }, next)) (fun i => { s i with phase := .sync }) ∧
      ∀ i, Stepper.InWords (f.on i) next { s i with phase := .sync } := by
  have hslots : ∀ i, ∀ p ∈ store i, p.slot.Fresh := fun i p hp =>
    ⟨(hfresh i p hp).1, (hfresh i p hp).2.1⟩
  have hkeeps (k : Nat) (i : Fin (m + 1)) := (hforces k i).keepSlots
  obtain ⟨now, mesh, hin, hon⟩ := exists_onSchedule hu hf hslots h
  have habs (i : Fin (m + 1)) : (s i).currentAbsolute f.setup = now.toAbsolute f.setup.timebase :=
    congrArg (Tick.toAbsolute · f.setup.timebase) (hin.current i)
  have hnow := (current_bounds hu hf hslots h 0).1
  rw [habs] at hnow
  have hlt : now.toAbsolute f.setup.timebase < f.setup.timeline.endTick := by
    rw [← habs 0]
    exact Int.not_le.1 fun hle => hopen 0 (decide_eq_true hle)
  refine ⟨_, Stepper.finish_agree hin.current (Int.ne_of_gt hu.timebase_pos), fun i => ?_⟩
  have hnext := hon.isNext hu hin rfl
  have hle := hon.le_of_isNext hnext
  refine ⟨?_, hst i, fun t a ht hslots' ha => ?_⟩
  · show (s i).currentAbsolute f.setup ≤ _
    rwa [habs i]
  · have hmesh := mesh_start_bounds hu hf hslots h i
    have hstep := isWithin_of_after? hu hkeeps h i
    apply hon.inWords hu hend hnext hnow hle (hon.le_endTick hu hnext hlt)
      (ht.withWriter f.setup.writer) hslots' ha.exists_turns hmesh.1 hstep
    intro hat
    obtain ⟨stats, hstats⟩ := ha.renewed hat
    exact MeshStep.isWithin_of_ticksOf hu hstats

theorem settles_inWords [Scalar.Ordered α] (hst : ∀ i, (s i).store.InWords)
    (hopen : ∀ i, ¬ Stepper.isFinished (f.on i) (s i)) {i : Fin (m + 1)}
    {r : Except Fault (Report α)} {t : Stepper α f.setup.bins}
    (hr : Ranks.Settles (f.cycle k) s i r t) : t.store.InWords := by
  obtain ⟨now, mesh, hin⟩ := exists_inStep hu hf h
  obtain ⟨next, hagree, hwords⟩ := exists_inWords hu hend hf hforces hfresh h hst hopen
  have hspec := ((settles_cycle_iff hin.phase hopen hagree).1 hr).spec fun i =>
    (hwords i).always_closing (hforces k i)
  cases r with
  | ok b => exact hspec.1 b rfl
  | error e => exact hspec.2 e rfl

theorem inWords_of_after? [Scalar.Ordered α] (i : Fin (m + 1)) : (s i).store.InWords := by
  induction k generalizing s i with
  | zero =>
    intro p hp
    rw [(isFirst_of_after? h i).store] at hp
    obtain ⟨hbin, hstart, hkick⟩ := hfresh i p hp
    have hzero : Word.IsTick 0 := ⟨Int.le_refl 0, by decide⟩
    refine ⟨?_, ?_, ?_⟩
    · rwa [hstart]
    · rwa [hkick]
    · rwa [hbin]
  | succ k ih =>
    obtain ⟨t, ht, hs⟩ := after?_succ.1 h
    obtain ⟨b, hb⟩ := Ranks.exists_finish_of_states? hs
    obtain ⟨now, mesh, hin⟩ := exists_inStep hu hf ht
    exact settles_inWords hu hend hf hforces hfresh ht (ih ht) (hin.not_isFinished hs)
      (hb.settles i)

end Words

/-- No tick of a run overflows, where the end of the run is a word: of the ticks that are stored,
that ranks reduce to find the next due one, and that are written when new steps are taken, none is
negative or greater than all words, whether a rank fails or not. Nor is any between which kick
factors are asked for: a source that agrees with that of the run on words gives the same cycles. In
the last cycle kicks go past the end of the run. -/
theorem ticks_are_words [Scalar.Ordered α] (hu : f.setup.IsMade)
    (hend : f.setup.timeline.endTick ≤ Word.greatest) (hf : f.KeepsSchedule)
    (hforces : ∀ k i, Forces.HoldMarks (f.forces k i))
    (hfresh : ∀ i, ∀ p ∈ store i, p.bin = 0 ∧ p.stepStart = 0 ∧ p.kickTick = 0)
    (h : f.after? store k = some s) (i : Fin (m + 1)) :
    (∀ p ∈ (s i).store,
      Word.IsTick p.stepStart ∧ Word.IsTick p.midpoint ∧ Word.IsTick p.kickTick) ∧
    Word.IsTick ((s i).currentAbsolute f.setup) ∧ Word.IsTick (s i).mesh.start ∧
    Word.IsTick (s i).mesh.kickTick ∧
    (¬ Stepper.isFinished (f.on i) (s i) →
      Word.IsTick
        (((s i).registry.nextSync (s i).current f.setup.timebase).toAbsolute f.setup.timebase) ∧
      (∀ r t, Ranks.Settles (fun i => Stepper.tally (f.on i) (f.forces k i)) s i (.ok r) t →
        r.allotment.InWords f.setup.timebase r.rank ∧ t.store.InWords) ∧
      (∀ r t, Ranks.Settles (f.cycle k) s i r t → t.store.InWords) ∧
      ∀ g : KickSource α, g.EqOnWords f.setup.kicker.source → ∀ r t,
        Ranks.Settles ((f.withSource g).cycle k) s i r t ↔ Ranks.Settles (f.cycle k) s i r t) := by
  have hslots : ∀ i, ∀ p ∈ store i, p.slot.Fresh := fun i p hp =>
    ⟨(hfresh i p hp).1, (hfresh i p hp).2.1⟩
  obtain ⟨now, mesh, hin, hon⟩ := exists_onSchedule hu hf hslots h
  have hcurrent := current_bounds hu hf hslots h i
  have hmesh := mesh_start_bounds hu hf hslots h i
  have hstep := isWithin_of_after? hu (fun k i => (hforces k i).keepSlots) h i
  have hst := inWords_of_after? hu hend hf hforces hfresh h
  have habs (i : Fin (m + 1)) : (s i).currentAbsolute f.setup = now.toAbsolute f.setup.timebase :=
    congrArg (Tick.toAbsolute · f.setup.timebase) (hin.current i)
  rw [habs] at hcurrent ⊢
  refine ⟨fun p hp => ?_, Word.isTick_of_le hend hcurrent.1 hcurrent.2,
    Word.isTick_of_le hend hmesh.1 hmesh.2,
    hu.isTick_kickPoint hend hmesh.1 hmesh.2 hstep.1.nonneg hstep.2, fun hfin => ?_⟩
  · obtain ⟨hstart, hmid⟩ := hon.isTick_step hu hend hcurrent.1 hcurrent.2 hp
    exact ⟨hstart, hmid, (hst i p hp).kickTick⟩
  have hlt : now.toAbsolute f.setup.timebase < f.setup.timeline.endTick := by
    rw [← habs i]
    exact Int.not_le.1 fun hle => hfin (decide_eq_true hle)
  have hopen (i : Fin (m + 1)) : ¬ Stepper.isFinished (f.on i) (s i) := by
    rw [Stepper.isFinished, Stepper.currentAbsolute, hin.current i, decide_eq_true_eq]
    exact Int.not_le.2 hlt
  obtain ⟨next, hagree, hwords⟩ := exists_inWords hu hend hf hforces hfresh h hst hopen
  refine ⟨hon.isTick_nextSync hu hin hend hcurrent.1 hlt i, fun r t hr => ?_, fun r t hr => ?_,
    fun g hg r t => ?_⟩
  · simp only [Stepper.tally, Stepper.lead_eq, bind_assoc] at hr
    exact (hagree.settles_bind_iff.1 hr).of_always fun i => (hwords i).always_tally (hforces k i)
  · exact settles_inWords hu hend hf hforces hfresh h hst hopen hr
  · apply (settles_cycle_iff (f := f.withSource g) hin.phase hopen hagree).trans
    apply Iff.trans _ (settles_cycle_iff hin.phase hopen hagree).symm
    exact (Ranks.settles_iff_of_alike fun i => (hwords i).alike_closing hg (hforces k i)).symm

end Fleet

namespace Sample

theorem kickTick_eq_zero (i : Fin 2) : ∀ p ∈ store i, p.kickTick = 0 := by
  match i with
  | 0 => simp [store, particle, default, Particle.zero]
  | 1 => simp [store, particle, default, Particle.zero]

def tallies : Ranks 1 (Stepper.Step Rat fleet.setup.bins (Stepper.Tally Rat fleet.setup.bins)) :=
  fun i => Stepper.tally (fleet.on i) none

def lastStop? : Option Int :=
  (fleet.after? store 3).bind fun s => (Ranks.outcomes? tallies s).bind fun o =>
    (o 0).result.toOption.bind fun r =>
      ((r.rank.turns r.allotment.placed).map fun e => (e.stretch true).stop).getLast?

end Sample

theorem Fleet.ticks_are_words_sample : Sample.lastStop? = some 10 ∧ ∃ s r t,
    Sample.fleet.after? Sample.store 3 = some s ∧
    Ranks.Settles (fun i => Stepper.tally (Sample.fleet.on i) none) s 0 (.ok r) t ∧
    r.allotment.InWords Sample.setup.timebase r.rank ∧ t.store.InWords := by
  have hsome : ((Sample.fleet.after? Sample.store 3).bind
      (Ranks.states? Sample.tallies)).isSome := by decide +kernel
  have hopen : ((Sample.fleet.after? Sample.store 3).all fun s =>
      !Stepper.isFinished (Sample.fleet.on 0) (s 0)) := by decide +kernel
  obtain ⟨t, ht⟩ := Option.isSome_iff_exists.1 hsome
  obtain ⟨s, h, hs⟩ := Option.bind_eq_some_iff.1 ht
  obtain ⟨r, hr⟩ := Ranks.exists_finish_of_states? hs
  have htally :
      Ranks.Settles (fun i => Stepper.tally (Sample.fleet.on i) none) s 0 (.ok (r 0)) (t 0) :=
    hr.settles 0
  rw [h, Option.all_some, Bool.not_eq_true'] at hopen
  obtain ⟨-, -, -, -, hwords⟩ := ticks_are_words Sample.isMade (by decide) Sample.keepsSchedule
    (fun _ _ => Forces.holdMarks_none) (fun i p hp => ⟨(Sample.bin_eq_zero i p hp).1,
      (Sample.bin_eq_zero i p hp).2, Sample.kickTick_eq_zero i p hp⟩) h 0
  exact ⟨by decide +kernel, s, r 0, t 0, h, htally,
    (hwords (Bool.eq_false_iff.1 hopen)).2.1 _ _ htally⟩

end BlockStep

import BlockStep.Proofs.Arrival
import BlockStep.Proofs.Impulse

namespace BlockStep

variable {α : Type} [Scalar α] {n : Nat}

namespace Assign

theorem place_inTable {f : Nat → Bool} {desired current : Int} (hn : 2 ≤ n) (h0 : 0 ≤ current)
    (h : current < n) :
    0 ≤ (place n f desired current).bin ∧ (place n f desired current).bin < n := by
  by_cases hd : 1 < TickCount.roundDown desired
  · obtain ⟨b, hb, hbn, -⟩ := place_spec (f := f) hn hd h0
    omega
  · have hf : isFault (TickCount.roundDown desired) := by
      simp only [isFault, decide_eq_true_eq]
      omega
    simp only [place, if_pos hf]
    exact ⟨h0, h⟩

theorem place_isActive {f : Nat → Bool} {desired current : Int} (hn : 2 ≤ n) (h0 : 0 ≤ current)
    (hdown : ∀ b c, c ≤ b → f b → f c) (h : f current.toNat) :
    f (place n f desired current).bin.toNat := by
  by_cases hd : 1 < TickCount.roundDown desired
  · obtain ⟨b, hb, -, -, -, hgrow, -⟩ := place_spec (f := f) hn hd h0
    rw [hb, Int.toNat_natCast]
    rcases hgrow with hle | hactive
    · exact hdown _ b (by omega) h
    · exact hactive
  · have hf : isFault (TickCount.roundDown desired) := by
      simp only [isFault, decide_eq_true_eq]
      omega
    simp only [place, if_pos hf]
    exact h

end Assign

namespace MeshStep

theorem advance_stop {ticks : Int} (h : TickCount.IsStep ticks) (m : MeshStep) :
    m.advance ticks m.stop = .ok ⟨m.stop, ticks⟩ := by
  have hnonneg := h.nonneg
  have hbound : ticks ≤ (pow2 62 : Nat) := by
    rcases h with rfl | ⟨b, hb, rfl⟩
    · exact Int.natCast_nonneg _
    · exact Int.ofNat_le.2 (pow2_le hb)
  have h62 : pow2 62 = 0x4000000000000000 := rfl
  have hword : Word.Holds ticks := by
    simp only [Word.Holds, Word.least, Word.greatest]
    omega
  have hraw : IsRaw ticks := by
    simp only [IsRaw, Word.least, Word.span]
    omega
  have hpower : TickCount.isPowerOrZero ticks := by
    rcases h with rfl | ⟨b, -, rfl⟩
    · rfl
    · have hand : pow2 b &&& (pow2 b - 1) = 0 := by
        refine (Nat.and_two_pow_sub_one_eq_mod (pow2 b) b).trans ?_
        exact Nat.mod_self _
      simp [TickCount.isPowerOrZero, hand]
  rw [advance, if_neg (fun hn => hn rfl), if_neg (not_not.2 hraw), Word.wrap_eq hword, hpower]
  rfl

end MeshStep

namespace Stepper

/-- A particle after the tick at which its step ends, where `want` is the step it asks for; it is
kicked up to the middle of the new step, or only up to that tick. -/
def turnTo (toMiddle : Bool) (k : Kicker α) (t : TimeFactors α) (n : Nat) (isDue : Nat → Bool)
    (want : Particle α → Int) (p : Particle α) : Particle α :=
  let placed := Assign.place n isDue (want p) p.bin
  let stop := if toMiddle then kickPoint p.slot.stop placed.ticks else p.slot.stop
  k.kickOne t p.midpoint stop (k.note stop { p with bin := placed.bin, stepStart := p.slot.stop })

@[simp] theorem slot_turnTo (toMiddle : Bool) (k : Kicker α) (t : TimeFactors α)
    (isDue : Nat → Bool) (want : Particle α → Int) (p : Particle α) :
    (turnTo toMiddle k t n isDue want p).slot =
      ⟨p.kind, (Assign.place n isDue (want p) p.bin).bin, p.slot.stop⟩ := by
  rw [turnTo, Kicker.slot_kickOne, Kicker.slot_note]
  rfl

theorem midpoint_turnTo (toMiddle : Bool) (k : Kicker α) (t : TimeFactors α) (isDue : Nat → Bool)
    (want : Particle α → Int) (p : Particle α) : (turnTo toMiddle k t n isDue want p).midpoint =
      kickPoint p.slot.stop (Assign.place n isDue (want p) p.bin).ticks :=
  congrArg (fun s : Slot => kickPoint s.stepStart (TickCount.cadence s.bin))
    (slot_turnTo toMiddle k t isDue want p)

theorem fits_turnTo (hn : 2 ≤ n) (toMiddle : Bool) (k : Kicker α) (t : TimeFactors α)
    (f : Nat → Bool) (W : Particle α → Int) {p : Particle α} (hp : p.Fits n) :
    (turnTo toMiddle k t n f W p).Fits n := by
  have hslot := slot_turnTo (n := n) toMiddle k t f W p
  have hbin : (turnTo toMiddle k t n f W p).bin = _ := congrArg Slot.bin hslot
  have hkind : (turnTo toMiddle k t n f W p).kind = _ := congrArg Slot.kind hslot
  have hplaced : 0 ≤ (Assign.place n f (W p) p.bin).bin ∧ (Assign.place n f (W p) p.bin).bin < n :=
    Assign.place_inTable hn hp.1 hp.2.1
  rw [Particle.Fits, hbin, hkind]
  exact ⟨hplaced.1, hplaced.2, hp.2.2⟩

/-- A particle that gets a step without a fault of its rank. -/
def IsAccepted (k : Kicker α) (want : Particle α → Int) (p : Particle α) : Prop :=
  0 ≤ want p ∧ (k.isChecked → p.kickTick = p.midpoint)

variable {u : Setup α} {next : Tick} {mesh : MeshStep} {s : Stepper α n}

omit [Scalar α] in
theorem isActive_eq (r : Registry n) : (fun b => r.active.toList.getD b false) = r.isActive := by
  funext b
  rw [Registry.isActive, List.getD_eq_getElem?_getD]
  congr 1
  simp

def turnsOf (s : Stepper α n) (place : Particle α → Assign.Placement) : List (Turn α) :=
  s.active.map fun i => ⟨i, s.store.particle i, place (s.store.particle i)⟩

theorem turns_eq (s : Stepper α n) (place : Particle α → Assign.Placement) :
    s.turns (s.activeParticles.map place) = s.turnsOf place := by
  rw [turns, turnsOf, activeParticles, Store.gather_eq, List.map_map]
  induction s.active with
  | nil => rfl
  | cons i is ih =>
    rw [List.map_cons, List.map_cons, List.zip_cons_cons, List.zipWith_cons_cons, List.map_cons, ih]
    rfl

theorem ends_applyMoves {E : Fault → Prop} (h : s.Ready u next mesh)
    (place : Particle α → Assign.Placement)
    (hplace : ∀ p : Particle α, p.Fits n → 0 ≤ (place p).bin ∧ (place p).bin < n) :
    (applyMoves (s.turnsOf place)).Ends E s fun moved s' => ∃ r : Registry n, ∃ st : Store α,
      s' = { s with registry := r, store := st } ∧ r.Counts st ∧ r.active = s.registry.active ∧
        s.registry.migrate ((s.turnsOf place).map Turn.move) = (r, .ok moved) ∧
        st = s.store.map fun p =>
          if s.registry.isDue p then { p with bin := (place p).bin } else p := by
  have hplaces : (s.turnsOf place).map (·.place) = s.active := by
    rw [turnsOf, List.map_map]
    exact List.map_id _
  have hturn (t : Turn α) (ht : t ∈ s.turnsOf place) : ∃ i ∈ s.active,
      t = ⟨i, s.store.particle i, place (s.store.particle i)⟩ := by
    obtain ⟨i, hi, rfl⟩ := List.mem_map.1 ht
    exact ⟨i, hi, rfl⟩
  obtain ⟨r, k, hm, hc, ha⟩ := h.counts.migrate (s.turnsOf place)
    (by rw [hplaces]; exact h.lists.nodup)
    (fun t ht => by
      obtain ⟨i, hi, rfl⟩ := hturn t ht
      exact (h.lists.getElem?_of_mem hi).1)
    (fun t ht => by
      obtain ⟨i, hi, rfl⟩ := hturn t ht
      have hf := h.fits _ (h.lists.particle_mem hi)
      exact ⟨⟨hf.1, hf.2.1⟩, hplace _ hf, hf.2.2⟩)
  have hst : s.store.scatter (fun b p => { p with bin := b }) ((s.turnsOf place).map (·.place))
      ((s.turnsOf place).map (·.next.bin)) = s.store.map fun p =>
        if s.registry.isDue p then { p with bin := (place p).bin } else p := by
    have hsc := h.lists.scatter_map id (fun b p => { p with bin := b }) fun p => (place p).bin
    rw [Array.map_id] at hsc
    rw [hplaces, turnsOf, List.map_map]
    exact hsc
  rw [applyMoves, Act.ends_bind, Act.ends_get]
  simp only [hm, onStore, Act.ends_bind, Act.ends_set]
  refine Act.ends_lift_ok.2 (Act.ends_within.2 (Act.ends_modify.2 (Act.ends_pure.2 ?_)))
  exact ⟨r, _, rfl, hc, ha, rfl, hst⟩

theorem ends_beginSteps {E : Fault → Prop} {s : Stepper α n} {store : Store α}
    {P : Particle α → Bool} {places : List Nat} (h : store.Lists P places)
    (f : Particle α → Particle α) (hs : s.store = store.map f)
    (place : Particle α → Assign.Placement) :
    (beginSteps (places.map fun i => ⟨i, store.particle i, place (store.particle i)⟩)).Ends E s
      fun _ s' => ∃ st : Store α, s' = { s with store := st } ∧
        st = store.map fun p => if P p then { f p with stepStart := p.slot.stop } else f p := by
  rw [beginSteps, onStore]
  refine Act.ends_within.2 (Act.ends_modify.2 ⟨_, rfl, ?_⟩)
  rw [hs, List.map_map, List.map_map]
  refine Eq.trans ?_ (h.scatter_map f (fun b p => { p with stepStart := b }) fun p => p.slot.stop)
  congr 1
  exact List.map_id _

/-- A rank whose due particles have taken their turns. -/
def turned (u : Setup α) (toMiddle : Bool) (s : Stepper α n) (W : Particle α → Int)
    (r : Registry n) : Stepper α n :=
  { s with
    registry := r
    phase := .kick
    store := s.store.map fun p => if s.registry.isDue p then
      turnTo toMiddle u.kicker s.instant.factors n s.registry.isActive W p else p }

theorem counts_turnTo {r : Registry n} (toMiddle : Bool) (W : Particle α → Int)
    (hc : r.Counts (s.store.map fun p => if s.registry.isDue p then
      { p with bin := (Assign.place n s.registry.isActive (W p) p.bin).bin } else p)) :
    r.Counts (s.store.map fun p => if s.registry.isDue p then
      turnTo toMiddle u.kicker s.instant.factors n s.registry.isActive W p else p) := by
  refine hc.congr ?_
  rw [Array.map_map, Array.map_map]
  congr 1
  funext p
  by_cases hd : s.registry.isDue p
  · have hslot := slot_turnTo (n := n) toMiddle u.kicker s.instant.factors s.registry.isActive W p
    simp only [Function.comp_apply, if_pos hd]
    exact Prod.ext (congrArg Slot.kind hslot) (congrArg Slot.bin hslot)
  · simp only [Function.comp_apply, if_neg hd]

section Turns

variable (h : s.Ready u next mesh)

include h

theorem Ready.mem_activeParticles {p : Particle α} :
    p ∈ s.activeParticles ↔ p ∈ s.store ∧ s.registry.isDue p := by
  constructor
  · intro hp
    obtain ⟨i, hi, rfl⟩ := List.mem_map.1 hp
    exact ⟨h.lists.particle_mem hi, (h.lists.getElem?_of_mem hi).2⟩
  · rintro ⟨hp, hd⟩
    obtain ⟨i, hi, rfl⟩ := h.lists.exists_place hp hd
    exact List.mem_map_of_mem hi

theorem ends_turnAll (hn : 2 ≤ n) (toMiddle : Bool) (W : Particle α → Int) :
    (turnAll u toMiddle s (s.turnsOf fun p => Assign.place n s.registry.isActive (W p) p.bin)).Ends
      (fun e => e.isGap ∧ ¬ (u.kicker.isChecked →
        ∀ p ∈ s.store, s.registry.isDue p → p.kickTick = p.midpoint)) s
      fun moved s' =>
        (u.kicker.isChecked → ∀ p ∈ s.store, s.registry.isDue p → p.kickTick = p.midpoint) ∧
        ∃ r : Registry n, s' = turned u toMiddle s W r ∧ r.Counts s'.store ∧
          r.active = s.registry.active ∧ s.registry.migrate ((s.turnsOf fun p =>
            Assign.place n s.registry.isActive (W p) p.bin).map Turn.move) = (r, .ok moved) := by
  generalize hplace : (fun p : Particle α => Assign.place n s.registry.isActive (W p) p.bin) = place
  have hstretches : (s.turnsOf place).map (Turn.stretch toMiddle) =
      Kicker.stretches s.store s.active Particle.midpoint fun p =>
        if toMiddle then kickPoint p.slot.stop (place p).ticks else p.slot.stop := by
    rw [turnsOf, List.map_map]
    rfl
  simp only [turnAll, Act.ends_bind]
  refine (ends_applyMoves h place ?_).mono ?_ fun _ he => he
  · intro p hp
    rw [← hplace]
    exact Assign.place_inTable hn hp.1 hp.2.1
  rintro moved s₁ ⟨r, st, rfl, hc, ha, hm, hst⟩
  refine ends_setPhase.2 ((ends_beginSteps h.lists (fun p => if s.registry.isDue p then
    { p with bin := (place p).bin } else p) hst place).mono ?_ fun _ he => he)
  rintro _ s₂ ⟨st', rfl, hst'⟩
  rw [hstretches, onStore]
  refine Act.ends_within.2 ?_
  show (u.kicker.shortRange s.instant.factors _).Ends _ st' _
  rw [hst']
  refine (Kicker.ends_shortRange h.lists _ _ _).mono ?_ ?_
  · rintro _ st'' ⟨hcont, hst''⟩
    have hturn : st'' = s.store.map fun p => if s.registry.isDue p then
        turnTo toMiddle u.kicker s.instant.factors n s.registry.isActive W p else p := by
      rw [hst'']
      congr 1
      funext p
      by_cases hd : s.registry.isDue p
      · simp only [if_pos hd, turnTo, ← hplace]
      · simp only [if_neg hd]
    rw [hturn]
    refine Act.ends_pure.2 ⟨fun hk p hp hd => ?_, r, rfl, ?_, ha, hm⟩
    · have hp' := hcont hk p hp hd
      simpa only [if_pos hd] using hp'
    · rw [hst, ← hplace] at hc
      exact counts_turnTo toMiddle W hc
  · rintro e ⟨he, hcont⟩
    refine ⟨he, fun hall => hcont fun hk p hp hd => ?_⟩
    simp only [if_pos hd]
    exact hall hk p hp hd

end Turns

theorem Ready.isActive_of_le (h : s.Ready u next mesh) {b c : Nat} (hle : c ≤ b)
    (hb : s.registry.isActive b) : s.registry.isActive c := by
  rw [Registry.isActive, h.marked] at hb ⊢
  exact Registry.getD_dueMask_of_le hle hb

theorem Ready.isDue_turnTo (h : s.Ready u next mesh) (hn : 2 ≤ n) (toMiddle : Bool)
    (W : Particle α → Int) {p : Particle α} (hp : p ∈ s.store) (hd : s.registry.isDue p) :
    s.registry.isDue
      (turnTo toMiddle u.kicker s.instant.factors n s.registry.isActive W p) := by
  have hbin := congrArg Slot.bin
    (slot_turnTo (n := n) toMiddle u.kicker s.instant.factors s.registry.isActive W p)
  change (turnTo toMiddle u.kicker s.instant.factors n s.registry.isActive W p).bin = _ at hbin
  rw [Registry.isDue, hbin]
  exact Assign.place_isActive hn (h.fits p hp).1 (fun _ _ => h.isActive_of_le) hd

theorem Ready.turned (h : s.Ready u next mesh) (hn : 2 ≤ n) (toMiddle : Bool)
    (W : Particle α → Int)
    {r : Registry n} (hc : r.Counts (turned u toMiddle s W r).store)
    (ha : r.active = s.registry.active) : (turned u toMiddle s W r).Ready u next mesh where
  current := h.current
  mesh := h.mesh
  instant := h.instant
  counts := hc
  marked := ha.trans h.marked
  lists := by
    have hdue : r.isDue = (s.registry.isDue : Particle α → Bool) := by
      funext p
      rw [Registry.isDue, Registry.isDue, Registry.isActive, Registry.isActive, ha]
    show (Stepper.turned u toMiddle s W r).store.Lists r.isDue s.active
    rw [hdue]
    refine h.lists.map _ fun p hp => ?_
    by_cases hd : s.registry.isDue p
    · rw [if_pos hd, hd]
      exact h.isDue_turnTo hn toMiddle W hp hd
    · rw [if_neg hd]
  fits := by
    intro q hq
    obtain ⟨p, hp, rfl⟩ := Array.mem_map.1 hq
    split
    · exact fits_turnTo hn _ _ _ _ _ (h.fits p hp)
    · exact h.fits p hp

/-- A particle after the mesh kick of a mesh step that ends, up to the middle of the next one or
only to the end of the old. -/
def meshKick (toMiddle : Bool) (k : Kicker α) (mesh : MeshStep) (ticks : Int) (p : Particle α) :
    Particle α :=
  let stop := if toMiddle then kickPoint mesh.stop ticks else mesh.stop
  Kick.withVel p (p.vel + p.meshAccel.scale (k.source.factor mesh.kickTick stop .gravity))

/-- A rank that has ended a cycle without faults. -/
def concluded (u : Setup α) (toMiddle atMesh : Bool) (ticks : Int) (s : Stepper α n) :
    Stepper α n :=
  { s with
    phase := .done
    mesh := if atMesh then ⟨s.mesh.stop, ticks⟩ else s.mesh
    store := if atMesh then s.store.map (meshKick toMiddle u.kicker s.mesh ticks) else s.store }

theorem slots_concluded (u : Setup α) (toMiddle atMesh : Bool) (ticks : Int) (s : Stepper α n) :
    (concluded u toMiddle atMesh ticks s).store.slots = s.store.slots := by
  show Store.slots (if atMesh then _ else _) = _
  split
  · exact Store.slots_map (meshKick toMiddle u.kicker s.mesh ticks) (fun _ => rfl) _
  · rfl

theorem Ready.concluded (h : s.Ready u next mesh) (toMiddle atMesh : Bool) (ticks : Int) :
    (concluded u toMiddle atMesh ticks s).Ready u next
      (concluded u toMiddle atMesh ticks s).mesh := by
  have hr := h.withStore (slots_concluded u toMiddle atMesh ticks s)
  exact ⟨hr.current, rfl, hr.instant, hr.counts, hr.marked, hr.lists, hr.fits⟩

/-- A rank whose run faults have ended, with a snapshot that has their number. -/
def aborted (all : Int) (s : Stepper α n) : Stepper α n :=
  { s with
    phase := .aborted
    shots := s.shots ++ [(Event.emergencyId, s.snapshot all Event.emergencyId)] }

omit [Scalar α] in
theorem does_abort (u : Setup α) (all : Int) (s : Stepper α n) :
    (abort u all).Does s (.error (.degenerateSteps all)) (aborted all s) := by
  rw [abort]
  refine Act.does_bind_error.2 (.inr ⟨(), _, Act.does_tell.2 ⟨rfl, rfl⟩, ?_⟩)
  refine Act.does_bind_error.2 (.inr ⟨(), _, Act.does_modify.2 ⟨rfl, rfl⟩, ?_⟩)
  refine Act.does_bind_error.2 (.inr ⟨(), _, Act.does_modify.2 ⟨rfl, rfl⟩, ?_⟩)
  cases u.writer with
  | none => exact Act.does_fail.2 ⟨rfl, rfl⟩
  | some w =>
    exact Act.does_bind_error.2 (.inr ⟨(), _, Act.does_tell.2 ⟨rfl, rfl⟩,
      Act.does_fail.2 ⟨rfl, rfl⟩⟩)

theorem ends_renewMesh {E : Fault → Prop} {ticks : Int} (h : TickCount.IsStep ticks)
    (toMiddle : Bool)
    (s : Stepper α n) :
    (renewMesh u toMiddle ticks s.mesh.stop).Ends E s fun _ s' => s' = { s with
      phase := .mesh
      mesh := ⟨s.mesh.stop, ticks⟩
      store := s.store.map (meshKick toMiddle u.kicker s.mesh ticks) } := by
  rw [renewMesh, Act.ends_bind]
  refine ends_setPhase.2 ?_
  rw [Act.ends_bind, Act.ends_get, Act.ends_bind, onStore]
  refine Act.ends_within.2 ((Kicker.ends_longRange _ _ _).mono ?_ fun _ he => he)
  rintro _ st rfl
  rw [Act.ends_bind]
  show (Act.lift (s.mesh.advance ticks s.mesh.stop)).Ends _ _ _
  rw [MeshStep.advance_stop h]
  exact Act.ends_lift_ok.2 (Act.ends_modify.2 rfl)

theorem ends_conclude {E : Fault → Prop} {toMiddle atMesh : Bool} {ticks now : Int}
    {s : Stepper α n} (h : atMesh → TickCount.IsStep ticks ∧ now = s.mesh.stop) :
    (conclude u toMiddle atMesh ticks now 0).Ends E s
      fun _ s' => s' = concluded u toMiddle atMesh ticks s := by
  rw [conclude, if_neg (not_not.2 rfl)]
  cases atMesh with
  | true =>
    rw [if_pos rfl, Act.ends_bind, (h rfl).2]
    refine (ends_renewMesh (h rfl).1 toMiddle s).mono ?_ fun _ he => he
    rintro _ s' rfl
    exact ends_setPhase.2 rfl
  | false => exact ends_setPhase.2 rfl

theorem does_conclude {toMiddle atMesh : Bool} {ticks now : Int} {s : Stepper α n}
    (h : atMesh → TickCount.IsStep ticks ∧ now = s.mesh.stop) :
    (conclude u toMiddle atMesh ticks now 0).Does s (.ok ())
      (concluded u toMiddle atMesh ticks s) := by
  rcases ends_conclude (E := fun _ => False) (u := u) h with ⟨_, t, hd, rfl⟩ | ⟨e, _, -, he⟩
  · exact hd
  · exact he.elim

/-- Faults end the run. -/
theorem does_conclude_of_ne {toMiddle atMesh : Bool} {ticks now all : Int} (h : all ≠ 0)
    (s : Stepper α n) : (conclude u toMiddle atMesh ticks now all).Does s
      (.error (.degenerateSteps all)) (aborted all s) := by
  rw [conclude, if_pos h]
  exact Act.does_bind_error.2 (.inl (does_abort u all s))

theorem ends_conclude_of_ne {E : Fault → Prop} {toMiddle atMesh : Bool} {ticks now all : Int}
    (h : all ≠ 0) (hE : E (.degenerateSteps all)) {s : Stepper α n}
    {R : Unit → Stepper α n → Prop} : (conclude u toMiddle atMesh ticks now all).Ends E s R :=
  (does_conclude_of_ne h s).ends_error.2 hE

end Stepper

end BlockStep

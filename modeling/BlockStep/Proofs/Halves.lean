import BlockStep.Proofs.Bookkeeping
import BlockStep.Proofs.Momentum

namespace BlockStep

variable {α σ β γ : Type} [Scalar α] {m n : Nat}

namespace Stepper

/-- As `advance` to the middles of the new steps, where the kicks first end with the old steps. -/
def advanceInHalves (u : Setup α) : Step α n Nat := do
  let moved ← advance u false
  halfKick u
  pure moved

def meshOpen (k : Kicker α) (mesh : MeshStep) (p : Particle α) : Particle α :=
  Kick.withVel p (p.vel + p.meshAccel.scale (k.source.factor mesh.start mesh.kickTick .gravity))

section Particle

variable [Scalar.IsRing α] {k : Kicker α} {t : TimeFactors α} {isDue : Nat → Bool}
  {want : Particle α → Int} {mesh : MeshStep} {ticks : Int} {p : Particle α}

theorem meshOpen_meshKick (hadd : k.source.IsAdditive) :
    meshOpen k ⟨mesh.stop, ticks⟩ (meshKick false k mesh ticks p) =
      meshKick true k mesh ticks p := by
  have hsum := hadd.scale p.meshAccel mesh.kickTick mesh.stop (kickPoint mesh.stop ticks)
  have hvel : p.vel + p.meshAccel.scale (k.source.factor mesh.kickTick mesh.stop .gravity) +
      p.meshAccel.scale (k.source.factor mesh.stop (kickPoint mesh.stop ticks) .gravity) =
      p.vel + p.meshAccel.scale
        (k.source.factor mesh.kickTick (kickPoint mesh.stop ticks) .gravity) := by
    rw [add_assoc, hsum]
  exact congrArg (fun v => Kick.withVel p v) hvel

theorem meshOpen_openOne (hadd : k.source.IsAdditive) (hgas : p.isGas = false) :
    meshOpen k ⟨mesh.stop, ticks⟩
        (k.openOne t (meshKick false k mesh ticks (turnTo false k t n isDue want p))) =
      meshKick true k mesh ticks (turnTo true k t n isDue want p) := by
  generalize hq : meshKick false k mesh ticks (turnTo false k t n isDue want p) = q
  have hmid : q.midpoint = kickPoint p.slot.stop (Assign.place n isDue (want p) p.bin).ticks := by
    rw [← hq]
    exact midpoint_turnTo false k t isDue want p
  rw [turnTo_of_not_isGas hgas false] at hq
  have hqgas : q.isGas = false := by
    rw [← hq]
    exact hgas
  rw [Kicker.openOne_of_not_isGas k t hqgas, hmid, ← hq, turnTo_of_not_isGas hgas true]
  simp only [meshOpen, meshKick, Kick.withVel, Bool.false_eq_true, if_false, if_true]
  have hgrav := hadd.scale p.gravAccel p.midpoint p.slot.stop
    (kickPoint p.slot.stop (Assign.place n isDue (want p) p.bin).ticks)
  have hmesh := hadd.scale p.meshAccel mesh.kickTick mesh.stop (kickPoint mesh.stop ticks)
  have hstop : MeshStep.kickTick ⟨mesh.stop, ticks⟩ = kickPoint mesh.stop ticks := rfl
  congr 1
  · rw [← hgrav, ← hmesh, hstop]
    abel
  · split
    · rfl
    · rfl

end Particle

variable {u : Setup α} {s : Stepper α n} {now : Tick} {mesh : MeshStep} {W : Particle α → Int}

def carriedOut (u : Setup α) (s : Stepper α n) (W : Particle α → Int) (ticks : Int) (r : Registry n)
    (toMiddle : Bool) : Stepper α n := concluded u toMiddle true ticks (turned u toMiddle s W r)

theorem exists_turnAll (hn : 2 ≤ n) (h : s.Ready u now mesh) (hcont : u.kicker.isChecked →
      ∀ p ∈ s.store, s.registry.isDue p → p.kickTick = p.midpoint) :
    ∃ (moved : Nat) (r : Registry n), ∀ toMiddle, (turnAll u toMiddle s
      (s.turnsOf fun p => Assign.place n s.registry.isActive (W p) p.bin)).Does
        s (.ok moved) (turned u toMiddle s W r) := by
  have hturn (toMiddle : Bool) : ∃ (moved : Nat) (r : Registry n), s.registry.migrate
      ((s.turnsOf fun p => Assign.place n s.registry.isActive (W p) p.bin).map Turn.move) =
        (r, .ok moved) ∧
      (turnAll u toMiddle s
        (s.turnsOf fun p => Assign.place n s.registry.isActive (W p) p.bin)).Does
          s (.ok moved) (turned u toMiddle s W r) := by
    rcases ends_turnAll h hn toMiddle W with ⟨moved, t, hd, -, r, rfl, -, -, hm⟩ |
      ⟨e, t, -, -, hgap⟩
    · exact ⟨moved, r, hm, hd⟩
    · exact absurd hcont hgap
  obtain ⟨moved, r, hm, -⟩ := hturn true
  refine ⟨moved, r, fun toMiddle => ?_⟩
  obtain ⟨moved', r', hm', hd⟩ := hturn toMiddle
  cases hm.symm.trans hm'
  exact hd

theorem does_halfKick {st : Store α} {P : Particle α → Bool} {f : Particle α → Particle α}
    (h : st.Lists P s.active) (hst : s.store = st.map f)
    (hcont : u.kicker.Continues P f (fun p => (f p).stepStart) st) :
    (halfKick u).Does s (.ok ()) { s with
      store := (st.map fun p => if P p then u.kicker.openOne s.instant.factors (f p) else f p).map
        (meshOpen u.kicker s.mesh) } := by
  rcases Kicker.ends_half (r := u.kicker) (t := s.instant.factors) h f s.mesh with
    ⟨_, t, hd, rfl⟩ | ⟨e, t, -, -, hgap⟩
  · refine Act.does_bind_ok.2 ⟨s, s, Act.does_get.2 ⟨rfl, rfl⟩, Act.does_within.2 ⟨_, ?_, rfl⟩⟩
    rw [hst]
    exact hd
  · exact absurd hcont hgap

/-- The second halves of the kicks make a rank what whole kicks would have made it. -/
theorem does_halfKick_carriedOut [Scalar.IsRing α] (hadd : u.kicker.source.IsAdditive)
    (h : s.Ready u now mesh) (hgas : ∀ p ∈ s.store, p.isGas = false) (ticks : Int)
    (r : Registry n) : (halfKick u).Does (carriedOut u s W ticks r false) (.ok ())
      (carriedOut u s W ticks r true) := by
  let half (p : Particle α) : Particle α := meshKick false u.kicker s.mesh ticks
    (if s.registry.isDue p then
      turnTo false u.kicker s.instant.factors n s.registry.isActive W p else p)
  have hst : (carriedOut u s W ticks r false).store = s.store.map half := Array.map_map
  have hcont : u.kicker.Continues s.registry.isDue half (fun p => (half p).stepStart) s.store := by
    intro hk p _ hd
    have hkick := turnTo_kickTick (n := n) hk false s.instant.factors s.registry.isActive W p
    simp only [half, if_pos hd]
    exact hkick
  have hdoes := does_halfKick (u := u) (s := carriedOut u s W ticks r false) h.lists hst hcont
  have hstore : (s.store.map fun p => if s.registry.isDue p then
      u.kicker.openOne s.instant.factors (half p) else half p).map
        (meshOpen u.kicker ⟨s.mesh.stop, ticks⟩) = (carriedOut u s W ticks r true).store := by
    rw [carriedOut, concluded, if_pos rfl, turned, Array.map_map, Array.map_map]
    apply Array.map_congr_left
    intro p hp
    by_cases hd : s.registry.isDue p
    · simp only [Function.comp_apply, half, if_pos hd]
      exact meshOpen_openOne hadd (hgas p hp)
    · simp only [Function.comp_apply, half, if_neg hd]
      exact meshOpen_meshKick hadd
  have hstate : carriedOut u s W ticks r true = { carriedOut u s W ticks r false with
      store := (carriedOut u s W ticks r true).store } := rfl
  rw [hstate, ← hstore]
  exact hdoes

section Ranks

variable {u : Ranks m (Setup α)} {s s' : Ranks m (Stepper α n)} {mesh : Ranks m MeshStep}
  {a : Ranks m (Allotment α)} {moved : Ranks m Nat}

/-- Ranks that carry out their allotments, to the middles of the new steps, find no gap between
kicks and no fault. -/
theorem no_faults_of_carryOut (hn : 2 ≤ n) (h : ∀ i, (s i).Ready (u i) now (mesh i))
    (ha : ∀ i, (a i).IsFor (u i) (s i))
    (hs : Ranks.Finish (fun i => carryOut (u i) true (s i) (a i)) s (fun i => .ok (moved i)) s') :
    (∀ i, (u i).kicker.isChecked →
      ∀ p ∈ (s i).store, (s i).registry.isDue p → p.kickTick = p.midpoint) ∧
    (Ranks.total fun i => ((a i).faultCount : Int)) = 0 := by
  choose W hW using fun i => (ha i).exists_turns
  have hturn (i : Fin (m + 1)) := ends_turnAll (u := u i) (h i) hn true (W i)
  simp only [← hW] at hturn
  simp only [carryOut, sumUp_bind] at hs
  have hjoint : Joint (fun _ => True) (fun _ => True)
      (fun i => turnAll (u i) true (s i) ((s i).turns (a i).placed)) s fun _ _ =>
        ∀ i, (u i).kicker.isChecked →
          ∀ p ∈ (s i).store, (s i).registry.isDue p → p.kickTick = p.midpoint :=
    Joint.of_ends (fun i => (hturn i).mono (fun _ _ ht => ht.1) fun _ _ => trivial) fun _ _ ht => ht
  obtain ⟨b, t, -, hcont, hrest⟩ := hjoint.of_finish_bind hs
  refine ⟨hcont, ?_⟩
  have hlast := (Ranks.finish_faultCount rfl t).of_bind hrest
  by_contra hne
  have habort : (do
      conclude (u 0) true (currentAbsolute (u 0) (s 0) == (s 0).mesh.stop) (a 0).most
        (currentAbsolute (u 0) (s 0)) (Ranks.total fun i => ((a i).faultCount : Int))
      pure (b 0) : Step α n Nat).Ends (fun _ => True) (t 0) fun _ _ => False :=
    Act.ends_bind.2 (ends_conclude_of_ne hne trivial)
  rcases habort with ⟨_, _, -, hfalse⟩ | ⟨e, t', hd, -⟩
  · exact hfalse
  · cases (hlast.eq_of_does hd).1

/-- Without gaps and faults ranks at the end of their mesh steps carry out their allotments, with
kicks to the middles of the new steps or to the ends of the old ones. -/
theorem finish_carryOut (hn : 2 ≤ n) (h : ∀ i, (s i).Ready (u i) now (mesh i))
    (hb : ∀ i, currentAbsolute (u i) (s i) = (s i).mesh.stop)
    (ha : ∀ i, (a i).IsFor (u i) (s i))
    (hcont : ∀ i, (u i).kicker.isChecked →
      ∀ p ∈ (s i).store, (s i).registry.isDue p → p.kickTick = p.midpoint)
    (hzero : (Ranks.total fun i => ((a i).faultCount : Int)) = 0) :
    ∃ (moved : Ranks m Nat) (W : Ranks m (Particle α → Int)) (r : Ranks m (Registry n)), ∀ toMiddle,
      Ranks.Finish (fun i => carryOut (u i) toMiddle (s i) (a i)) s (fun i => .ok (moved i))
        fun i => carriedOut (u i) (s i) (W i) (a i).most (r i) toMiddle := by
  choose W hW using fun i => (ha i).exists_turns
  choose moved r hturn using fun i => exists_turnAll (W := W i) hn (h i) (hcont i)
  refine ⟨moved, W, r, fun toMiddle => ?_⟩
  let t (i : Fin (m + 1)) : Stepper α n := turned (u i) toMiddle (s i) (W i) (r i)
  have hend (i : Fin (m + 1)) :
      (conclude (u i) toMiddle (currentAbsolute (u i) (s i) == (s i).mesh.stop) (a i).most
        (currentAbsolute (u i) (s i)) 0).Does (t i) (.ok ())
        (carriedOut (u i) (s i) (W i) (a i).most (r i) toMiddle) := by
    obtain ⟨stats, hticks⟩ := (ha i).renewed (hb i)
    have hrenew := MeshStep.isStep_of_ticksOf hticks
    rw [beq_iff_eq.2 (hb i)]
    exact does_conclude fun _ => ⟨hrenew, hb i⟩
  simp only [carryOut, sumUp_bind, hW]
  apply (Ranks.finish_of_does fun i => hturn i toMiddle).bind
  apply (Ranks.finish_faultCount hzero t).bind
  apply (Ranks.finish_of_does hend).bind
  exact Ranks.finish_of_does fun i => Act.does_pure.2 ⟨rfl, rfl⟩

theorem finish_carryOut_halves [Scalar.IsRing α] (hn : 2 ≤ n)
    (hadd : ∀ i, (u i).kicker.source.IsAdditive) (h : ∀ i, (s i).Ready (u i) now (mesh i))
    (hb : ∀ i, currentAbsolute (u i) (s i) = (s i).mesh.stop)
    (ha : ∀ i, (a i).IsFor (u i) (s i)) (hgas : ∀ i, ∀ p ∈ (s i).store, p.isGas = false)
    (hs : Ranks.Finish (fun i => carryOut (u i) true (s i) (a i)) s (fun i => .ok (moved i)) s') :
    Ranks.Finish (fun i => do
      let moved ← carryOut (u i) false (s i) (a i)
      halfKick (u i)
      pure moved) s (fun i => .ok (moved i)) s' := by
  obtain ⟨hcont, hzero⟩ := no_faults_of_carryOut hn h ha hs
  obtain ⟨moved', W, r, hends⟩ := finish_carryOut hn h hb ha hcont hzero
  obtain ⟨hmoved, rfl⟩ := hs.unique (hends true)
  rw [hmoved]
  have hhalf : Ranks.Finish (fun i => halfKick (u i))
      (fun i => carriedOut (u i) (s i) (W i) (a i).most (r i) false) (fun _ => .ok ())
      fun i => carriedOut (u i) (s i) (W i) (a i).most (r i) true :=
    Ranks.finish_of_does fun i =>
      does_halfKick_carriedOut (hadd i) (h i) (hgas i) (a i).most (r i)
  apply (hends false).bind
  apply hhalf.bind
  exact Ranks.finish_of_does fun i => Act.does_pure.2 ⟨rfl, rfl⟩

end Ranks

theorem joint_choose_of_stop {w : Ranks m (Option SnapshotWriter)} {s : Ranks m (Stepper α n)}
    {mesh : Ranks m MeshStep} (h : ∀ i, (s i).Ready u now (mesh i))
    (hb : ∀ i, currentAbsolute u (s i) = (s i).mesh.stop) :
    Joint (fun _ => True) (fun _ => True) (fun i => choose { u with writer := w i } (s i)) s
      fun _ _ => True := by
  have hinstant (i : Fin (m + 1)) : (s i).instant = (s 0).instant :=
    Except.ok.inj ((h i).instant.symm.trans (h 0).instant)
  have hends (i : Fin (m + 1)) :
      (currentAbsolute { u with writer := w i } (s i) == (s i).mesh.stop) = true :=
    beq_iff_eq.2 (hb i)
  simp only [choose, meshTicks, hends, if_true]
  apply Joint.bind
  · simp only [hinstant, fun i => (h i).current]
    exact Joint.meshNext (fun i p hp => ((h i).fits p hp).2.2) fun _ _ => trivial
  rintro ticks t ⟨rfl, hticks⟩
  have hsame (i : Fin (m + 1)) : ticks i = ticks 0 :=
    Except.ok.inj ((hticks i).symm.trans (hticks 0))
  simp only [hsame]
  apply (joint_allot (fun _ _ => trivial) (fun _ _ _ _ => trivial) fun _ => trivial).mono
  exact fun _ _ _ => trivial

end Stepper

namespace Fleet

variable {f : Fleet α m} {store : Ranks m (Store α)} {ops : Nat → Operation} {k : Nat}
  {s s' : Ranks m (Stepper α f.setup.bins)} {moved : Ranks m Nat}

/-- Where kicks add up over adjacent stretches and no particle is gas, ranks that are at the end of
their mesh steps after any operations and complete an `advance` there also complete it in halves,
with the same states and the same numbers of moves. -/
theorem halves_make_whole [Scalar.IsRing α] (hu : f.setup.IsMade)
    (hf : ∀ k i, Forces.LeaveSlots (f.forces k i)) (hadd : f.setup.kicker.source.IsAdditive)
    (h : f.performed? store ops k = some s)
    (hb : ∀ i, Stepper.currentAbsolute (f.on i) (s i) = (s i).mesh.stop)
    (hgas : ∀ i, ∀ p ∈ (s i).store, p.isGas = false)
    (ha : Ranks.Finish (fun i => Stepper.advance (f.on i) true) s (fun i => .ok (moved i)) s') :
    Ranks.Finish (fun i => Stepper.advanceInHalves (f.on i)) s (fun i => .ok (moved i)) s' := by
  obtain ⟨now, -, hin⟩ := exists_inOrder hu hf h
  have hrelax : Joint (fun _ => True) (fun _ => True) (fun i => do
      Stepper.setPhase .assign
      Stepper.relax (f.on i)) s fun _ t => ∀ i, (t i).Ready (f.on i) now (s i).mesh ∧
        (t i).store.slots = (s i).store.slots := by
    apply Joint.modify_bind
    apply (Stepper.joint_relax (u := f.setup) (w := f.writer) _).mono
    intro _ t ht i
    obtain ⟨st, hst, hslots⟩ := ht i
    have hr := (hin i).ready.withStore hslots
    rw [hst]
    exact ⟨hr.withRecords, hslots⟩
  have hadvance (toMiddle : Bool) (i : Fin (m + 1)) :
      (Stepper.advance (f.on i) toMiddle : Stepper.Step α f.setup.bins Nat) = (do
        Stepper.setPhase .assign
        Stepper.relax (f.on i)) >>= fun _ => Stepper.proceed (f.on i) toMiddle := by
    rw [Stepper.advance_eq, bind_assoc]
  have hhalved (i : Fin (m + 1)) :
      (Stepper.advanceInHalves (f.on i) : Stepper.Step α f.setup.bins Nat) = (do
        Stepper.setPhase .assign
        Stepper.relax (f.on i)) >>= fun _ => (do
          let moved ← Stepper.proceed (f.on i) false
          Stepper.halfKick (f.on i)
          pure moved) := by
    rw [Stepper.advanceInHalves, hadvance, bind_assoc]
  simp only [hadvance] at ha
  obtain ⟨b, t, hres, ht, hproceed⟩ := hrelax.of_finish_bind ha
  have hstop (i : Fin (m + 1)) :
      Stepper.currentAbsolute (f.on i) (t i) = (t i).mesh.stop := by
    have habsolute := hb i
    rw [Stepper.currentAbsolute, (hin i).ready.current] at habsolute
    rw [Stepper.currentAbsolute, (ht i).1.current, (ht i).1.mesh]
    exact habsolute
  have hgas' (i : Fin (m + 1)) : ∀ p ∈ (t i).store, p.isGas = false :=
    Store.forall_slot (ht i).2 (P := fun s => (s.kind == Kind.gas) = false) (hgas i)
  have hjoint := Stepper.joint_choose_of_stop (w := f.writer)
    (fun i => (ht i).1.withWriter f.setup.writer) hstop
  obtain ⟨a, t', hchoose, -, hcarry⟩ := hjoint.of_finish_bind
    (hproceed.congr fun i => (Stepper.proceed_apply (f.on i) true (t i)).symm)
  have hchosen := hchoose.of_always fun i => Stepper.always_choose (ht i).1
  obtain rfl : t' = t := funext fun i => (hchosen i).1
  have hhalves := Stepper.finish_carryOut_halves (u := f.on) hu.two_le (fun _ => hadd)
    (fun i => (ht i).1) hstop (fun i => (hchosen i).2) hgas' hcarry
  have hboth : Ranks.Finish (fun i => do
      let a ← Stepper.choose (f.on i) (t' i)
      let moved ← Stepper.carryOut (f.on i) false (t' i) a
      Stepper.halfKick (f.on i)
      pure moved) t' (fun i => .ok (moved i)) s' := hchoose.bind hhalves
  simp only [hhalved]
  apply hres.bind
  apply hboth.congr
  intro i
  rw [← bind_assoc]
  exact Act.bind_congr_apply (Stepper.proceed_apply (f.on i) false (t' i)) _

end Fleet

namespace Sample

def toMeshEnd : Nat → Operation
  | 0 => .cycle
  | _ => .synchronize

end Sample

theorem Fleet.halves_make_whole_sample : ∃ (s : Ranks 1 (Stepper Rat Sample.fleet.setup.bins))
    (moved : Ranks 1 Nat) (s' : Ranks 1 (Stepper Rat Sample.fleet.setup.bins)),
    Sample.fleet.performed? Sample.pulledStore Sample.toMeshEnd 2 = some s ∧
    Ranks.Finish (fun i => Stepper.advance (Sample.fleet.on i) true) s (fun i => .ok (moved i)) s' ∧
    Ranks.Finish (fun i => Stepper.advanceInHalves (Sample.fleet.on i)) s
      (fun i => .ok (moved i)) s' := by
  have hrun : ∃ s ∈ Sample.fleet.performed? Sample.pulledStore Sample.toMeshEnd 2,
      (∀ i, Stepper.currentAbsolute (Sample.fleet.on i) (s i) = (s i).mesh.stop) ∧
      (∀ i, ∀ p ∈ (s i).store, p.isGas = false) ∧
      (Ranks.states? (fun i => Stepper.advance (Sample.fleet.on i) true) s).isSome := by
    decide +kernel
  obtain ⟨s, h, hb, hgas, hsome⟩ := hrun
  obtain ⟨s', hs⟩ := Option.isSome_iff_exists.1 hsome
  obtain ⟨moved, ha⟩ := Ranks.exists_finish_of_states? hs
  have hhalves := halves_make_whole Sample.isMade (fun _ _ => Forces.leaveSlots_none)
    Sample.isAdditive h hb hgas ha
  exact ⟨s, moved, s', h, ha, hhalves⟩

end BlockStep

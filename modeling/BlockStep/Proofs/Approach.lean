import BlockStep.Proofs.Lockstep

namespace BlockStep

variable {α σ β : Type} [Scalar α] {m n : Nat}

/-- Ranks that take their steps by a course have agreed on its mesh step. -/
theorem Fleet.finish_meshTicks_of_meshed {f : Fleet α m} {mesh : MeshStep} {c : Course α}
    {t t' : Ranks m (Stepper α f.setup.bins)} {b : Ranks m Nat}
    (ht : ∀ i, (t i).Ready f.setup c.next mesh) (hi : ∀ i, (t i).instant = c.instant)
    (hc : c.Meshed f.setup mesh fun i => (t i).store)
    (h : Ranks.Finish (fun i => Stepper.proceed (f.on i) true) t (fun i => .ok (b i)) t') :
    Ranks.Finish (fun i => Stepper.meshTicks (f.on i) (t i)) t (fun _ => .ok c.most) t := by
  rcases Stepper.finish_meshTicks (w := f.writer) ht hi with
    ⟨most, hticks, hnew, hold⟩ | ⟨e, t'', hticks, -⟩
  · have hmeshed :
        ({ c with most := most } : Course α).Meshed f.setup mesh fun i => (t i).store := by
      constructor
      · exact fun ha => hnew (beq_iff_eq.1 ha)
      · exact fun ha => hold fun he => ha (beq_iff_eq.2 he)
    obtain rfl : most = c.most := hc.unique hmeshed rfl rfl
    exact hticks
  · have hfault : Ranks.Finish (fun i => Stepper.proceed (f.on i) true) t (fun _ => .error e) t'' :=
      (hticks.bind_error _).congr fun i => Stepper.proceed_apply_allot (f.on i) true (t i)
    cases congrFun (h.unique hfault).1 0

namespace InStep

variable {f : Fleet α m} {k : Nat} {now : Tick} {mesh : MeshStep}
  {s s' : Ranks m (Stepper α f.setup.bins)}

/-- Ranks that have completed a cycle have come to where new steps are taken, and have gone through
a course from there. -/
theorem exists_arrives (h : InStep f.setup now mesh s) (hu : f.setup.IsMade)
    (hf : Forces.KeepSchedule (f.forces k)) (hs : Ranks.states? (f.cycle k) s = some s') :
    ∃ r t, ∃ c : Course α, f.Arrives k s r t (fun _ => c.most) ∧
      (∀ i, (t i).Ready f.setup c.next mesh ∧ (t i).instant = c.instant ∧
        (t i).store.slots = (s i).store.slots) ∧
      c.Leads f.setup now mesh s (fun i => (t i).store) s' := by
  have htb := Int.ne_of_gt hu.timebase_pos
  have hopen := h.not_isFinished hs
  have hlost {i : Fin (m + 1)} {e : Fault} :
      ¬ Ranks.Fails (fun i => Stepper.turnover (f.on i) (f.forces k i)) s i e :=
    Fleet.not_fails_turnover h.phase hopen hs
  obtain ⟨next, hnext⟩ : ∃ next, next = Tick.ofAbsolute (Ranks.least fun i =>
    ((s i).registry.nextSync now f.setup.timebase).toAbsolute f.setup.timebase) f.setup.timebase :=
    ⟨_, rfl⟩
  rcases (Stepper.joint_lead (w := f.writer) hf h.current h.mesh htb hnext).finish_or_fails with
    ⟨r, t, hlead, hle, -, ht⟩ | ⟨i, e, hfails⟩
  case inr => exact absurd (hfails.bind _) hlost
  have hinstant (i : Fin (m + 1)) : (t i).instant = (t 0).instant :=
    Except.ok.inj ((ht i).1.instant.symm.trans (ht 0).1.instant)
  have hjoint := Stepper.joint_proceed (A := fun _ => True) (E := fun _ => True) (w := f.writer)
    hu.two_le (fun i => (ht i).1) hinstant (fun _ _ _ _ _ => trivial) fun _ _ _ => trivial
  rcases hjoint.finish_or_fails with
    ⟨b, t', hproceed, c, rfl, hci, hagreed, hzero, hran⟩ | ⟨i, e, hfails⟩
  case inr => exact absurd (hlead.fails (hfails.bind _)) hlost
  have hticks := Fleet.finish_meshTicks_of_meshed (fun i => (ht i).1)
    (fun i => (hinstant i).trans hci.symm) hagreed.toMeshed hproceed
  have hcycle := Fleet.finish_cycle_of_ok h.phase hopen (Fleet.finish_turnover_of_ok hlead hproceed)
  obtain ⟨b', hs'⟩ := Ranks.exists_finish_of_states? hs
  obtain ⟨-, rfl⟩ := hs'.unique hcycle
  refine ⟨r, t, c, ⟨hlead, hticks⟩, fun i => ⟨(ht i).1, (hinstant i).trans hci.symm, (ht i).2⟩, ?_,
    hagreed, hzero, fun i => ?_⟩
  · refine ⟨hnext, hle, ?_, fun i p hp => ?_⟩
    · rw [hci]
      exact (ht 0).1.instant
    · obtain ⟨l, hl⟩ := Array.getElem?_of_mem hp
      obtain ⟨q, hq, hslot⟩ := Store.exists_of_slots_eq (ht i).2.symm hl
      exact ((ht i).1.fits q (Array.mem_of_getElem? hq)).of_slot hslot
  · have hi := hran i
    exact ⟨hi.counts, hi.active, hi.store, hi.current, hi.mesh, hi.phase⟩

end InStep

end BlockStep

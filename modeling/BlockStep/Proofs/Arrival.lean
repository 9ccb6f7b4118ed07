import BlockStep.Proofs.Census
import BlockStep.Proofs.Endings
import BlockStep.Proofs.Joint
import BlockStep.Proofs.Phases
import BlockStep.Proofs.Selection

namespace BlockStep

variable {α : Type} [Scalar α] {m n : Nat}

namespace Store

variable {s s' : Store α}

omit [Scalar α] in
theorem getElem?_slots (s : Store α) (i : Nat) : s.slots[i]? = s[i]?.map Particle.slot := by
  rw [slots, Array.getElem?_map]

omit [Scalar α] in
theorem slots_map (f : Particle α → Particle α) (h : ∀ p, (f p).slot = p.slot) (s : Store α) :
    slots (s.map f) = s.slots := by
  rw [slots, slots, Array.map_map]
  congr 1
  funext p
  exact h p

omit [Scalar α] in
/-- With the same slots every particle has one with its slot at its position. -/
theorem exists_of_slots_eq (h : s'.slots = s.slots) {i : Nat} {p : Particle α}
    (hp : s'[i]? = some p) :
    ∃ q, s[i]? = some q ∧ q.slot = p.slot := by
  have hi := getElem?_slots s' i
  rw [h, getElem?_slots, hp] at hi
  exact Option.map_eq_some_iff.1 hi

omit [Scalar α] in
theorem forall_slot (h : s'.slots = s.slots) {P : Slot → Prop} (hP : ∀ p ∈ s, P p.slot) :
    ∀ p ∈ s', P p.slot := by
  intro p hp
  obtain ⟨i, hi⟩ := Array.getElem?_of_mem hp
  obtain ⟨q, hq, hslot⟩ := exists_of_slots_eq h hi
  rw [← hslot]
  exact hP q (Array.mem_of_getElem? hq)

omit [Scalar α] in
theorem Lists.of_slots {P : Particle α → Bool} {places : List Nat} (h : s.Lists P places)
    (hs : s'.slots = s.slots) (hP : ∀ p q : Particle α, p.slot = q.slot → P p = P q) :
    s'.Lists P places where
  nodup := h.nodup
  mem_iff i := by
    rw [h.mem_iff]
    constructor
    · rintro ⟨p, hp, hPp⟩
      obtain ⟨q, hq, he⟩ := exists_of_slots_eq hs.symm hp
      exact ⟨q, hq, by rw [hP q p he]; exact hPp⟩
    · rintro ⟨p, hp, hPp⟩
      obtain ⟨q, hq, he⟩ := exists_of_slots_eq hs hp
      exact ⟨q, hq, by rw [hP q p he]; exact hPp⟩

end Store

omit [Scalar α] in
/-- The tables depend on kinds and bins alone. -/
theorem Registry.Counts.congr {r : Registry n} {s s' : Store α} (h : r.Counts s)
    (hs : s'.map (fun p => (p.kind, p.bin)) = s.map fun p => (p.kind, p.bin)) : r.Counts s' := by
  have hin (s : Store α) (b : Int) :
      countIn s b = ((s.map fun p => (p.kind, p.bin)).countP (·.2 == b) : Nat) := by
    rw [countIn, Array.countP_map]
    rfl
  have hof (s : Store α) (k b : Int) : countOf s k b =
      ((s.map fun p => (p.kind, p.bin)).countP fun q => q.1 == k && q.2 == b : Nat) := by
    rw [countOf, Array.countP_map]
    rfl
  constructor
  · rw [h.total]
    simp only [hin, hs]
  · rw [h.kinds]
    simp only [hof, hs]

omit [Scalar α] in
theorem Registry.Counts.of_slots {r : Registry n} {s s' : Store α} (h : r.Counts s)
    (hs : s'.slots = s.slots) : r.Counts s' := by
  have hmap (s : Store α) :
      s.map (fun p => (p.kind, p.bin)) = s.slots.map fun q => (q.kind, q.bin) := by
    rw [Store.slots, Array.map_map]
    rfl
  exact h.congr (by rw [hmap, hmap, hs])

theorem Registry.Counts.sum_active {r : Registry n} {s : Store α} (h : r.Counts s)
    (hf : ∀ p ∈ s, p.Fits n) :
    sum (((List.range n).filter r.isActive).map fun b => r.count[b]?.getD 0) =
      (r.due s).length := by
  have hs := sum_countP s.toList r.isDue (·.bin) (m := n) fun p hp =>
    ⟨(hf p (Array.mem_toList_iff.1 hp)).1, (hf p (Array.mem_toList_iff.1 hp)).2.1⟩
  rw [Array.countP_toList, ← (r.lists_due s).length_eq] at hs
  rw [sum_filter_map, ← hs]
  congr 1
  apply List.map_congr_left
  intro b hb
  rw [h.getD_eq (List.mem_range.1 hb), countIn, ← Array.countP_toList]
  by_cases ha : r.isActive b
  · rw [if_pos ha]
    congr 1
    apply List.countP_congr
    intro p _
    by_cases hbin : p.bin = b <;> simp [isDue, hbin, ha]
  · rw [if_neg ha]
    symm
    rw [Int.natCast_eq_zero, List.countP_eq_zero]
    intro p _
    by_cases hbin : p.bin = b <;> simp [isDue, hbin, ha]

omit [Scalar α] in
theorem Registry.due_congr {r r' : Registry n} (h : r'.active = r.active) (s : Store α) :
    r'.due s = r.due s := by
  simp only [due, isActive, h]

omit [Scalar α] in
theorem Particle.Fits.of_slot {p q : Particle α} (h : p.Fits n) (hs : p.slot = q.slot) :
    q.Fits n := by
  simp only [Fits] at h ⊢
  have hb : p.bin = q.bin := congrArg Slot.bin hs
  have hk : p.kind = q.kind := congrArg Slot.kind hs
  rwa [← hb, ← hk]

omit [Scalar α] in
theorem Store.fits_of_slots {s s' : Store α} (h : s'.slots = s.slots) (hf : ∀ p ∈ s, p.Fits n) :
    ∀ p ∈ s', p.Fits n := by
  intro p hp
  obtain ⟨i, hi⟩ := Array.getElem?_of_mem hp
  obtain ⟨q, hq, he⟩ := exists_of_slots_eq h hi
  exact (hf q (Array.mem_of_getElem? hq)).of_slot he

theorem Config.isNumeric_instant {c : Config α} {a : α} {e : Fault} (h : c.instant a = .error e) :
    e.isNumeric := by
  rcases error_of_bind h with h | ⟨f, -, h⟩
  · rcases error_of_bind h with h | ⟨x, -, h⟩
    · exact Scalar.isNumeric_quotient h
    · rcases error_of_bind h with h | ⟨y, -, h⟩
      · exact Scalar.isNumeric_quotient h
      · cases h
  · cases h

namespace Stepper

/-- A rank at a tick where its due bins are marked and its particles counted. -/
structure Ready (u : Setup α) (next : Tick) (mesh : MeshStep) (s : Stepper α n) : Prop where
  current : s.current = next
  mesh : s.mesh = mesh
  instant : u.config.instant (u.timeline.scaleFactor (next.toAbsolute u.timebase)) = .ok s.instant
  counts : s.registry.Counts s.store
  marked : s.registry.active = Registry.dueMask n next.localTick
  lists : s.store.Lists s.registry.isDue s.active
  fits : ∀ p ∈ s.store, p.Fits n

theorem Ready.withWriter {u : Setup α} {next : Tick} {mesh : MeshStep} {s : Stepper α n}
    (h : s.Ready u next mesh) (w : Option SnapshotWriter) :
    s.Ready { u with writer := w } next mesh :=
  ⟨h.current, h.mesh, h.instant, h.counts, h.marked, h.lists, h.fits⟩

/-- A rank stays ready in any phase and with any records. -/
theorem Ready.withRecords {u : Setup α} {next : Tick} {mesh : MeshStep} {s : Stepper α n}
    (h : s.Ready u next mesh) {phase : Phase} {cycle : Nat} {rows : List (Row α)}
    {shots : List (Int × Snapshot α)} {seen : List (List Nat × Tick)} :
    Ready u next mesh
      { s with phase := phase, cycle := cycle, rows := rows, shots := shots, seen := seen } :=
  ⟨h.current, h.mesh, h.instant, h.counts, h.marked, h.lists, h.fits⟩

theorem Ready.withStore {u : Setup α} {next : Tick} {mesh : MeshStep} {s : Stepper α n}
    (h : s.Ready u next mesh) {st : Store α} (hs : st.slots = s.store.slots) :
    Ready u next mesh { s with store := st } where
  current := h.current
  mesh := h.mesh
  instant := h.instant
  counts := h.counts.of_slots hs
  marked := h.marked
  lists := h.lists.of_slots hs fun p q hpq => by
    have hb : p.bin = q.bin := congrArg Slot.bin hpq
    rw [Registry.isDue, Registry.isDue, hb]
  fits := Store.fits_of_slots hs h.fits

variable {u : Setup α} {E : Fault → Prop}

omit [Scalar α] in
theorem ends_setPhase {p : Phase} {s : Stepper α n} {R : Unit → Stepper α n → Prop} :
    (setPhase p : Step α n Unit).Ends E s R ↔ R () { s with phase := p } := Act.ends_modify

theorem ends_setTime {a : α} {s : Stepper α n} :
    (setTime u a : Step α n Unit).Ends
      (fun e => u.config.instant a = .error e) s
      fun _ s' => ∃ i, u.config.instant a = .ok i ∧
        s' = { s with scaleFactor := a, instant := i } := by
  rw [setTime, Act.ends_bind, Act.ends_modify, Act.ends_bind]
  cases h : u.config.instant a with
  | ok i => exact Act.ends_lift_ok.2 (Act.ends_modify.2 ⟨i, rfl, rfl⟩)
  | error e => exact Act.ends_lift_error.2 rfl

omit [Scalar α] in
theorem ends_recount {s : Stepper α n} :
    (recount : Step α n Unit).Ends
      (fun e => e.isPlain ∧ ¬ ∀ p ∈ s.store, p.Fits n) s
      fun _ s' => ∃ r : Registry n, s' = { s with registry := r, active := r.due s.store } ∧
        r.Counts s.store ∧ r.active = s.registry.active ∧ ∀ p ∈ s.store, p.Fits n := by
  rw [recount, Act.ends_bind, Act.ends_get]
  rcases s.registry.recount_cases s.store with ⟨r, hr, hc, ha, hf⟩ | ⟨r, e, hr, he, hf⟩
  · simp only [hr, Act.ends_bind, Act.ends_set, Act.ends_modify, Act.ends_tell]
    exact Act.ends_lift_ok.2 ⟨r, rfl, hc, ha, hf⟩
  · simp only [hr, Act.ends_bind, Act.ends_set]
    exact Act.ends_lift_error.2 ⟨he, hf⟩

omit [Scalar α] in
theorem ends_checkCounts {s : Stepper α n} (hc : s.registry.Counts s.store)
    (hf : ∀ p ∈ s.store, p.Fits n) :
    (checkCounts : Step α n Unit).Ends E s fun _ s' => s' = s := by
  rw [checkCounts, Act.ends_bind, Act.ends_get, hc.check_ok hf, Act.ends_lift_ok]

theorem does_arrive_of_lt {s : Stepper α n} {next : Tick}
    (h : next.toAbsolute u.timebase < currentAbsolute u s) :
    (arrive u s next).Does s (.error (.syncBackwards next s.current)) s := by
  rw [arrive, if_pos h]
  exact Act.does_bind_error.2 (.inl (Act.does_fail.2 ⟨rfl, rfl⟩))

/-- A rank that does not go back comes to the tick, if the scale factor there has conversion factors
and the particles of the rank have places in the tables. It finds as many due particles in its
tables as it then lists, where the tables have been exact. -/
theorem ends_arrive {s : Stepper α n} {next : Tick}
    (h : currentAbsolute u s ≤ next.toAbsolute u.timebase) :
    (arrive u s next).Ends
      (fun e => u.config.instant (u.timeline.scaleFactor (next.toAbsolute u.timebase)) = .error e ∨
        (∃ i, u.config.instant (u.timeline.scaleFactor (next.toAbsolute u.timebase)) = .ok i) ∧
          e.isPlain ∧ ¬ ∀ p ∈ s.store, p.Fits n) s
      fun r s' => r.1 = next ∧ s'.Ready u next s.mesh ∧ s'.store = s.store ∧
        (s.registry.Counts s.store → r.2 = s'.active.length) ∧
        s'.phase = s.phase ∧ s'.rows = s.rows := by
  simp only [arrive, if_neg (Int.not_lt.2 h), Registry.markDue, Act.ends_bind, Act.ends_modify,
    Act.ends_get, Act.ends_tell, Act.ends_pure]
  refine ends_setTime.mono (fun _ s₁ hs₁ => ?_) fun e he => .inl he
  obtain ⟨i, hi, rfl⟩ := hs₁
  refine ends_recount.mono (fun _ s₂ hs₂ => ?_) fun e he => .inr ⟨⟨i, hi⟩, he⟩
  obtain ⟨r, rfl, hc, ha, hf⟩ := hs₂
  refine (ends_checkCounts ?_ ?_).mono (fun _ s₃ hs₃ => ?_) fun _ he => he
  · exact hc
  · exact hf
  · rw [hs₃]
    refine ⟨trivial, ⟨rfl, rfl, hi, hc, ha, r.lists_due s.store, hf⟩, rfl,
      fun hcounts => ?_, rfl, rfl⟩
    have hmarked :
        ({ s.registry with active := Registry.dueMask n next.localTick } : Registry n).Counts
          s.store := ⟨hcounts.total, hcounts.kinds⟩
    rw [Registry.due_congr ha]
    exact hmarked.sum_active hf

end Stepper

theorem Joint.agreeSync {σ : Type} {A E : Fault → Prop} {r : Ranks m (Registry n)}
    {now : Ranks m Tick} {current : Tick} (hnow : ∀ i, now i = current) {timebase : Int}
    (h : timebase ≠ 0) (s : Ranks m σ) :
    Joint (α := α) A E (fun i => (r i).agreeSync (now i) timebase) s fun next s' =>
      s' = s ∧ ∀ i, next i = Tick.ofAbsolute
        (Ranks.least fun i => ((r i).nextSync current timebase).toAbsolute timebase) timebase := by
  obtain rfl : now = fun _ => current := funext hnow
  simp only [Registry.agreeSync]
  refine Joint.bind (Joint.leastTick (Q := fun v s' => s' = s ∧ ∀ i, v i =
    Ranks.least fun i => ((r i).nextSync current timebase).toAbsolute timebase)
      ⟨rfl, fun _ => rfl⟩) ?_
  rintro v s' ⟨rfl, hv⟩
  refine Joint.of_ends (R := fun _ b t => b = Tick.ofAbsolute
    (Ranks.least fun i => ((r i).nextSync current timebase).toAbsolute timebase) timebase ∧
      t = s' _)
    (fun i => ?_) fun b t h => ⟨funext fun i => (h i).2, fun i => (h i).1⟩
  simp only [hv i, Tick.ofAbsolute?, if_neg h]
  exact Act.ends_bind.2 (Act.ends_tell.2 (Act.ends_pure.2 ⟨rfl, rfl⟩))

theorem Ranks.finish_agreeSync {r : Ranks m (Registry n)} {now : Ranks m Tick} {current : Tick}
    (hnow : ∀ i, now i = current) {timebase : Int} (h : timebase ≠ 0) (s : Ranks m σ) :
    Finish (fun i => ((r i).agreeSync (now i) timebase : Act α σ Tick)) s
      (fun _ => .ok (Tick.ofAbsolute
        (least fun i => ((r i).nextSync current timebase).toAbsolute timebase) timebase)) s := by
  have hjoint := Joint.agreeSync (α := α) (A := fun _ => False) (E := fun _ => False)
      (r := r) hnow h s
  rcases hjoint.finish fun i => Act.always_true _ (s i) with ⟨next, t, ht, rfl, hnext⟩ |
    ⟨e, t, -, he, -⟩
  · rwa [funext hnext] at ht
  · exact he.elim

namespace Stepper

section Joint

variable {u : Setup α} {A E : Fault → Prop} {s : Ranks m (Stepper α n)}
  {w : Ranks m (Option SnapshotWriter)} {now next : Tick} {mesh : MeshStep}
  (hnow : ∀ i, (s i).current = now) (hmesh : ∀ i, (s i).mesh = mesh)
  (hback : next.toAbsolute u.timebase < now.toAbsolute u.timebase → A (.syncBackwards next now))
  (hinstant : ∀ e,
    u.config.instant (u.timeline.scaleFactor (next.toAbsolute u.timebase)) = .error e → A e)
  (hE : ∀ e i, e.isPlain → (¬ ∀ p ∈ (s i).store, p.Fits n) → E e)

include hnow hmesh hback hinstant hE

theorem joint_arrive :
    Joint A E (fun i => arrive { u with writer := w i } (s i) next) s fun r s' =>
      ∀ i, (r i).1 = next ∧ now.toAbsolute u.timebase ≤ next.toAbsolute u.timebase ∧
        (s' i).Ready u next mesh ∧ (s' i).store = (s i).store := by
  have habs (i : Fin (m + 1)) : currentAbsolute u (s i) = now.toAbsolute u.timebase :=
    congrArg (Tick.toAbsolute · u.timebase) (hnow i)
  by_cases hle : now.toAbsolute u.timebase ≤ next.toAbsolute u.timebase
  · have hahead (i : Fin (m + 1)) : currentAbsolute u (s i) ≤ next.toAbsolute u.timebase := by
      rw [habs i]
      exact hle
    have harrive (i : Fin (m + 1)) := ends_arrive (hahead i)
    cases hi : u.config.instant (u.timeline.scaleFactor (next.toAbsolute u.timebase)) with
    | error e =>
      refine Joint.of_error (e := e) (fun i => (harrive i).mono ?_ ?_) (hinstant e hi)
      · rintro r t ⟨-, hr, -⟩
        cases hi.symm.trans hr.instant
      · rintro e' (he | ⟨⟨j, hj⟩, -⟩)
        · exact Except.error.inj (he.symm.trans hi)
        · cases hi.symm.trans hj
    | ok j =>
      refine Joint.of_ends (fun i => (harrive i).mono (fun _ _ h => h) ?_) ?_
      · rintro e (he | ⟨-, hplain, hfits⟩)
        · cases hi.symm.trans he
        · exact hE e i hplain hfits
      · intro r t h i
        obtain ⟨hr, hready, hstore, -⟩ := h i
        rw [hmesh i] at hready
        exact ⟨hr, hle, hready, hstore⟩
  · refine Joint.of_error (fun i => ?_) (hback (Int.not_le.1 hle))
    have hbehind : next.toAbsolute u.timebase < currentAbsolute u (s i) := by
      rw [habs i]
      exact Int.not_le.1 hle
    have hdoes := does_arrive_of_lt hbehind
    rw [hnow i] at hdoes
    exact hdoes.ends_error.2 rfl

theorem joint_synchronize (htb : u.timebase ≠ 0) (hnext : next = Tick.ofAbsolute
      (Ranks.least fun i => ((s i).registry.nextSync now u.timebase).toAbsolute u.timebase)
        u.timebase) :
    Joint A E (fun i => synchronize { u with writer := w i }) s fun r s' =>
      ∀ i, (r i).1 = next ∧ now.toAbsolute u.timebase ≤ next.toAbsolute u.timebase ∧
        (s' i).Ready u next mesh ∧ (s' i).store = (s i).store := by
  simp only [synchronize_eq, agree, bind_assoc, pure_bind]
  refine Joint.modify_bind (Joint.get_bind ?_)
  refine Joint.bind (Joint.agreeSync hnow htb _) ?_
  rintro v t ⟨rfl, hv⟩
  simp only [hv, ← hnext]
  exact joint_arrive (s := fun i => { s i with phase := .sync }) hnow hmesh hback hinstant hE

end Joint

/-- Ranks at one tick agree on the next one. -/
theorem finish_agree {now : Tick} {timebase : Int} {s : Ranks m (Stepper α n)}
    (hnow : ∀ i, (s i).current = now) (htb : timebase ≠ 0) :
    Ranks.Finish (fun _ => agree timebase) s
      (fun i => .ok ({ s i with phase := .sync }, Tick.ofAbsolute (Ranks.least fun i =>
        ((s i).registry.nextSync now timebase).toAbsolute timebase) timebase))
      fun i => { s i with phase := .sync } := by
  have hstart : Ranks.Finish (fun _ : Fin (m + 1) => (setPhase .sync : Step α n Unit)) s
      (fun _ => .ok ()) fun i => { s i with phase := .sync } :=
    Ranks.finish_of_does fun i => Act.does_modify.2 ⟨rfl, rfl⟩
  have hsync := Ranks.finish_agreeSync (α := α) (r := fun i => (s i).registry) hnow htb
    fun i => { s i with phase := .sync }
  simp only [agree]
  apply hstart.bind
  apply (Ranks.finish_of_does fun i => Act.does_get.2 ⟨rfl, rfl⟩).bind
  apply hsync.bind
  exact Ranks.finish_of_does fun i => Act.does_pure.2 ⟨rfl, rfl⟩

end Stepper

end BlockStep

import BlockStep.Proofs.Spread

namespace BlockStep

variable {α : Type} [Scalar α] {m m' N : Nat}

/-- The particles that each rank has, in the order of its store; each of the `N` particles is on one
rank. -/
structure Layout (m N : Nat) where
  on : Ranks m (List (Fin N))
  perm : (List.ofFn on).flatten.Perm (List.finRange N)

namespace Layout

/-- One rank with all particles. -/
def single (N : Nat) : Layout 0 N where
  on _ := List.finRange N
  perm := by simp

def store (l : Layout m N) (ps : Fin N → Particle α) : Ranks m (Store α) :=
  fun i => ((l.on i).map ps).toArray

omit [Scalar α] in
theorem particles_store (l : Layout m N) (ps : Fin N → Particle α) :
    Ranks.particles (l.store ps) = (List.ofFn l.on).flatten.map ps := by
  rw [Ranks.particles, List.map_flatten, List.map_ofFn]
  rfl

omit [Scalar α] in
theorem perm_particles (l : Layout m N) (l' : Layout m' N) (ps : Fin N → Particle α) :
    (Ranks.particles (l.store ps)).Perm (Ranks.particles (l'.store ps)) := by
  rw [particles_store, particles_store]
  exact (l.perm.trans l'.perm.symm).map ps

omit [Scalar α] in
theorem map_store (l : Layout m N) (ps : Fin N → Particle α) (f : Particle α → Particle α)
    (i : Fin (m + 1)) : (l.store ps i).map f = l.store (f ∘ ps) i := by
  rw [store, store, List.map_toArray, List.map_map]

end Layout

namespace Sample

def layout : Layout 1 3 where
  on
    | 0 => [2, 0]
    | 1 => [1]
  perm := by decide

def single : Fleet Rat 0 := ⟨setup, fun _ => none, fun _ _ => none⟩

end Sample

/-- Between two cycles ranks have the particles `ps`. -/
structure LaidOut (u : Setup α) (now : Tick) (mesh : MeshStep) (l : Layout m N)
    (ps : Fin N → Particle α) (s : Ranks m (Stepper α u.bins)) : Prop where
  inStep : InStep u now mesh s
  store : ∀ i, (s i).store = l.store ps i
  lt_timebase : now.localTick < u.timebase

/-- The course that ranks take with the particles that they have. -/
structure Course.IsFor {n : Nat} (u : Setup α) (now : Tick) (mesh : MeshStep)
    (s : Ranks m (Stepper α n))
    (c : Course α) : Prop where
  heads : c.Heads u now s
  agreed : c.Agreed u n mesh fun i => (s i).store

theorem Course.IsFor.unique {n : Nat} {u : Setup α} {now : Tick} {mesh : MeshStep}
    {s : Ranks m (Stepper α n)} {c c' : Course α} (h : c.IsFor u now mesh s)
    (h' : c'.IsFor u now mesh s) : c' = c := by
  have hnext : c'.next = c.next := h'.heads.next.trans h.heads.next.symm
  refine h.agreed.unique h'.agreed hnext ?_
  have hinstant := h'.heads.instant
  rw [hnext] at hinstant
  exact Except.ok.inj (hinstant.symm.trans h.heads.instant)

namespace LaidOut

variable {u : Setup α} {now : Tick} {mesh : MeshStep} {l : Layout m N} {l' : Layout m' N}
  {ps : Fin N → Particle α} {s t : Ranks m (Stepper α u.bins)} {s' t' : Ranks m' (Stepper α u.bins)}
  {c : Course α}

omit [Scalar α] in
theorem perm (h : LaidOut u now mesh l ps s) (h' : LaidOut u now mesh l' ps s') :
    (Ranks.particles fun i => (s i).store).Perm (Ranks.particles fun i => (s' i).store) := by
  rw [funext h.store, funext h'.store]
  exact l.perm_particles l' ps

theorem isFor [Scalar.Exact α] (h : LaidOut u now mesh l ps s) (h' : LaidOut u now mesh l' ps s')
    (hc : c.IsFor u now mesh s) : c.IsFor u now mesh s' where
  heads := hc.heads.of_perm (h.perm h') h.inStep.counts h'.inStep.counts h.lt_timebase
  agreed := hc.agreed.of_perm (h.perm h')

omit [Scalar α] in
theorem of_first (hu : u.IsMade) (h : ∀ i, (s i).IsFirst (l.store ps i)) :
    LaidOut u ⟨0, 0⟩ ⟨0, 0⟩ l ps s where
  inStep := InStep.of_first h
  store i := (h i).store
  lt_timebase := hu.timebase_pos

section Cycle

variable {w : Ranks m (Option SnapshotWriter)} {w' : Ranks m' (Option SnapshotWriter)}
  {g : Nat → Ranks m (Option (Forces α))} {g' : Nat → Ranks m' (Option (Forces α))} {k : Nat}

/-- Ranks go through their course, or all fail by its faults, or there is none and one fails. -/
theorem cycle_cases (h : LaidOut u now mesh l ps s) (hu : u.IsMade)
    (hglass : u.config.features.makeGlass = false) (hg : ∀ k i, Forces.Frozen (g k i))
    (hend : now.toAbsolute u.timebase < u.timeline.endTick) :
    (∃ c : Course α, c.IsFor u now mesh s ∧ c.faults u u.bins (l.store ps) = 0 ∧
      ∃ t, Ranks.states? ((⟨u, w, g⟩ : Fleet α m).cycle k) s = some t ∧
        LaidOut u c.next (c.meshAfter u mesh) l (c.after u u.bins mesh ∘ ps) t) ∨
    (∃ c : Course α, c.IsFor u now mesh s ∧ c.faults u u.bins (l.store ps) ≠ 0 ∧
      Ranks.Raises ((⟨u, w, g⟩ : Fleet α m).cycle k) s
        (.degenerateSteps (c.faults u u.bins (l.store ps)))) ∨
    (¬ ∃ c : Course α, c.IsFor u now mesh s) ∧
      ∃ i e, Ranks.Fails ((⟨u, w, g⟩ : Fleet α m).cycle k) s i e ∧ e.degenerate? = none := by
  have hjoint := Stepper.joint_runCycle
    (A := fun e => ∃ c : Course α, c.IsFor u now mesh s ∧ c.faults u u.bins (l.store ps) ≠ 0 ∧
      e = .degenerateSteps (c.faults u u.bins (l.store ps)))
    (E := fun e => (¬ ∃ c : Course α, c.IsFor u now mesh s) ∧ e.degenerate? = none)
    (w := w) (K := fun st st' => st' = st) hu.two_le (Int.ne_of_gt hu.timebase_pos)
    h.inStep.current h.inStep.mesh (fun _ => rfl)
    (fun next t ht => Stepper.joint_prepare_frozen (hg k) hglass ht) ?_ ?_ h.inStep.phase hend
  · rcases hjoint.cases with ⟨_, t, ht, c, st, hst, hc⟩ | ⟨e, he, c, hc, hne, rfl⟩ |
      ⟨i, e, he, hno, hd⟩
    · obtain rfl : st = fun i => (s i).store := funext hst
      refine .inl ⟨c, ⟨hc.heads, hc.agreed⟩, ?_, t, ht, InStep.of_leads hc, fun i => ?_, ?_⟩
      · rw [← funext h.store]
        exact hc.faultless
      · rw [(hc.ran i).store, h.store, Layout.map_store]
      · rw [hc.heads.next]
        exact Int.fmod_lt_of_pos _ hu.timebase_pos
    · exact .inr (.inl ⟨c, hc, hne, he⟩)
    · exact .inr (.inr ⟨hno, i, e, he, hd⟩)
  · intro c st hst hheads hagreed hne
    obtain rfl : st = fun i => (s i).store := funext hst
    rw [funext h.store] at hne ⊢
    exact ⟨c, ⟨hheads, hagreed⟩, hne, rfl⟩
  · intro e st hst he hno
    obtain rfl : st = fun i => (s i).store := funext hst
    exact ⟨fun ⟨c, hc⟩ => hno ⟨c, hc.heads, hc.agreed⟩, he⟩

theorem exists_isFor (h : LaidOut u now mesh l ps s) (hu : u.IsMade)
    (hglass : u.config.features.makeGlass = false) (hg : ∀ k i, Forces.Frozen (g k i))
    (hs : Ranks.states? ((⟨u, w, g⟩ : Fleet α m).cycle k) s = some t) :
    now.toAbsolute u.timebase < u.timeline.endTick ∧ ∃ c : Course α, c.IsFor u now mesh s ∧
      c.faults u u.bins (l.store ps) = 0 ∧
        LaidOut u c.next (c.meshAfter u mesh) l (c.after u u.bins mesh ∘ ps) t := by
  by_cases hend : now.toAbsolute u.timebase < u.timeline.endTick
  · refine ⟨hend, ?_⟩
    rcases h.cycle_cases (w := w) (k := k) hu hglass hg hend with
      ⟨c, hc, hzero, t', ht, hlaid⟩ | ⟨c, -, -, he⟩ | ⟨-, i, e, he, -⟩
    · cases ht.symm.trans hs
      exact ⟨c, hc, hzero, hlaid⟩
    · cases hs.symm.trans (he.fails 0).states?_eq_none
    · cases hs.symm.trans he.states?_eq_none
  · obtain ⟨_, hfalse⟩ := (h.inStep.joint_finished (f := ⟨u, w, g⟩) (k := k) (A := fun _ => True)
      (E := fun _ => False) (Q := fun _ _ => False) (Int.not_lt.1 hend) trivial).of_states? hs
    exact hfalse.elim

theorem exists_isFor_of_raises (h : LaidOut u now mesh l ps s) (hu : u.IsMade)
    (hglass : u.config.features.makeGlass = false) (hg : ∀ k i, Forces.Frozen (g k i))
    {faults : Int}
    (hr : Ranks.Raises ((⟨u, w, g⟩ : Fleet α m).cycle k) s (.degenerateSteps faults)) :
    now.toAbsolute u.timebase < u.timeline.endTick ∧ ∃ c : Course α, c.IsFor u now mesh s ∧
      faults ≠ 0 ∧ c.faults u u.bins (l.store ps) = faults := by
  by_cases hend : now.toAbsolute u.timebase < u.timeline.endTick
  · refine ⟨hend, ?_⟩
    rcases h.cycle_cases (w := w) (k := k) hu hglass hg hend with
      ⟨c, -, -, t, ht, -⟩ | ⟨c, hc, hne, he⟩ | ⟨-, i, e, he, hd⟩
    · cases ht.symm.trans (hr.fails 0).states?_eq_none
    · cases (he.fails 0).unique (hr.fails 0)
      exact ⟨c, hc, hne, rfl⟩
    · rw [he.unique (hr.fails i)] at hd
      cases hd
  · rcases (h.inStep.joint_finished (f := ⟨u, w, g⟩) (k := k) (A := (· = .runFinished))
      (E := fun _ => False) (Q := fun _ _ => False) (Int.not_lt.1 hend) rfl).of_raises
        hr with he | he
    · cases he
    · exact he.elim

section Alike

variable [Scalar.Exact α] (h : LaidOut u now mesh l ps s) (h' : LaidOut u now mesh l' ps s')
  (hu : u.IsMade) (hglass : u.config.features.makeGlass = false) (hg : ∀ k i, Forces.Frozen (g k i))
  (hg' : ∀ k i, Forces.Frozen (g' k i))

include h h' hu hglass hg hg'

theorem exists_states (hs : Ranks.states? ((⟨u, w, g⟩ : Fleet α m).cycle k) s = some t) :
    ∃ t' next mesh' ps', Ranks.states? ((⟨u, w', g'⟩ : Fleet α m').cycle k) s' = some t' ∧
      LaidOut u next mesh' l ps' t ∧ LaidOut u next mesh' l' ps' t' := by
  obtain ⟨hend, c, hc, hzero, hlaid⟩ := h.exists_isFor hu hglass hg hs
  have hc' := h.isFor h' hc
  rw [Course.faults_eq_of_perm (l.perm_particles l' ps)] at hzero
  rcases h'.cycle_cases (w := w') (k := k) hu hglass hg' hend with
    ⟨d, hd, -, t', ht', hlaid'⟩ | ⟨d, hd, hne, -⟩ | ⟨hno, -⟩
  · obtain rfl := hc'.unique hd
    exact ⟨t', _, _, _, ht', hlaid, hlaid'⟩
  · obtain rfl := hc'.unique hd
    exact absurd hzero hne
  · exact absurd ⟨c, hc'⟩ hno

theorem raises {faults : Int}
    (hr : Ranks.Raises ((⟨u, w, g⟩ : Fleet α m).cycle k) s (.degenerateSteps faults)) :
    Ranks.Raises ((⟨u, w', g'⟩ : Fleet α m').cycle k) s' (.degenerateSteps faults) := by
  obtain ⟨hend, c, hc, hne, rfl⟩ := h.exists_isFor_of_raises hu hglass hg hr
  have hc' := h.isFor h' hc
  rw [Course.faults_eq_of_perm (l.perm_particles l' ps)] at hne ⊢
  rcases h'.cycle_cases (w := w') (k := k) hu hglass hg' hend with
    ⟨d, hd, hzero, -⟩ | ⟨d, hd, -, he⟩ | ⟨hno, -⟩
  · obtain rfl := hc'.unique hd
    exact absurd hzero hne
  · obtain rfl := hc'.unique hd
    exact he
  · exact absurd ⟨c, hc'⟩ hno

end Alike

end Cycle

end LaidOut

namespace Fleet

section

variable [Scalar.Exact α] {u : Setup α} {w : Ranks m (Option SnapshotWriter)}
  {w' : Ranks m' (Option SnapshotWriter)} {g : Nat → Ranks m (Option (Forces α))}
  {g' : Nat → Ranks m' (Option (Forces α))} {k : Nat}

/-- After any number of cycles two runs have the same particles. -/
theorem exists_laidOut (hu : u.IsMade) (hglass : u.config.features.makeGlass = false)
    (hg : ∀ k i, Forces.Frozen (g k i)) (hg' : ∀ k i, Forces.Frozen (g' k i)) (l : Layout m N)
    (l' : Layout m' N) (ps : Fin N → Particle α) {s : Ranks m (Stepper α u.bins)}
    (h : (⟨u, w, g⟩ : Fleet α m).after? (l.store ps) k = some s) :
    ∃ s' now mesh ps', (⟨u, w', g'⟩ : Fleet α m').after? (l'.store ps) k = some s' ∧
      LaidOut u now mesh l ps' s ∧ LaidOut u now mesh l' ps' s' := by
  induction k generalizing s with
  | zero =>
    rcases (⟨u, w, g⟩ : Fleet α m).first?_cases (l.store ps) with
      ⟨t, ht, hfirst, hbegun, hfits⟩ | ⟨hnone, -⟩
    · cases ht.symm.trans h
      rcases (⟨u, w', g'⟩ : Fleet α m').first?_cases (l'.store ps) with
        ⟨t', ht', hfirst', -⟩ | ⟨-, hno⟩
      · exact ⟨t', _, _, ps, ht', .of_first hu hfirst, .of_first hu hfirst'⟩
      · refine absurd ⟨hbegun, fun i p hp => ?_⟩ hno
        obtain ⟨i', hp'⟩ := (Ranks.mem_iff_of_perm (l.perm_particles l' ps)).2 ⟨i, hp⟩
        exact hfits i' p hp'
    · cases hnone.symm.trans h
  | succ k ih =>
    obtain ⟨t, ht, hs⟩ := after?_succ.1 h
    obtain ⟨t', now, mesh, ps', ht', hlaid, hlaid'⟩ := ih ht
    obtain ⟨s', next, mesh', ps'', hs', hnext, hnext'⟩ :=
      hlaid.exists_states hlaid' hu hglass hg hg' hs
    exact ⟨s', next, mesh', ps'', after?_succ.2 ⟨t', ht', hs'⟩, hnext, hnext'⟩

/-- The schedule does not depend on how particles are spread over ranks: of two runs with the same
particles either both complete a number of cycles or none does; after them all ranks are at the same
tick and in the same mesh step, each particle is the same in both, and in the next cycle both fail
by the same faults or none does. -/
theorem schedule_of_layout (hu : u.IsMade) (hglass : u.config.features.makeGlass = false)
    (w : Ranks m (Option SnapshotWriter)) (w' : Ranks m' (Option SnapshotWriter))
    (hg : ∀ k i, Forces.Frozen (g k i)) (hg' : ∀ k i, Forces.Frozen (g' k i)) (l : Layout m N)
    (l' : Layout m' N) (ps : Fin N → Particle α) (k : Nat) :
    ((⟨u, w, g⟩ : Fleet α m).after? (l.store ps) k).isSome =
      ((⟨u, w', g'⟩ : Fleet α m').after? (l'.store ps) k).isSome ∧
    ∀ s s', (⟨u, w, g⟩ : Fleet α m).after? (l.store ps) k = some s →
      (⟨u, w', g'⟩ : Fleet α m').after? (l'.store ps) k = some s' →
      (∃ now mesh ps', (∀ i, (s i).current = now ∧ (s i).mesh = mesh ∧
        (s i).store = l.store ps' i) ∧
        ∀ i, (s' i).current = now ∧ (s' i).mesh = mesh ∧ (s' i).store = l'.store ps' i) ∧
      ∀ faults,
        Ranks.Raises ((⟨u, w, g⟩ : Fleet α m).cycle k) s (.degenerateSteps faults) ↔
          Ranks.Raises ((⟨u, w', g'⟩ : Fleet α m').cycle k) s' (.degenerateSteps faults) := by
  constructor
  · rw [Bool.eq_iff_iff, Option.isSome_iff_exists, Option.isSome_iff_exists]
    constructor
    · rintro ⟨s, hs⟩
      obtain ⟨s', -, -, -, hs', -⟩ := exists_laidOut hu hglass hg hg' l l' ps hs
      exact ⟨s', hs'⟩
    · rintro ⟨s', hs'⟩
      obtain ⟨s, -, -, -, hs, -⟩ := exists_laidOut hu hglass hg' hg l' l ps hs'
      exact ⟨s, hs⟩
  · intro s s' hs hs'
    obtain ⟨t', now, mesh, ps', ht', hlaid, hlaid'⟩ := exists_laidOut hu hglass hg hg' l l' ps hs
    cases ht'.symm.trans hs'
    refine ⟨⟨now, mesh, ps', fun i => ?_, fun i => ?_⟩, fun faults => ⟨fun hr => ?_, fun hr => ?_⟩⟩
    · exact ⟨hlaid.inStep.current i, hlaid.inStep.mesh i, hlaid.store i⟩
    · exact ⟨hlaid'.inStep.current i, hlaid'.inStep.mesh i, hlaid'.store i⟩
    · exact hlaid.raises hlaid' hu hglass hg hg' hr
    · exact hlaid'.raises hlaid hu hglass hg' hg hr

end

theorem schedule_of_layout_sample :
    ∃ s s', Sample.fleet.after? (Sample.layout.store fun i => Sample.particle i) 2 = some s ∧
      Sample.single.after? ((Layout.single 3).store fun i => Sample.particle i) 2 = some s' ∧
      ∃ now mesh ps', (∀ i, (s i).current = now ∧ (s i).mesh = mesh ∧
        (s i).store = Sample.layout.store ps' i) ∧
        ∀ i, (s' i).current = now ∧ (s' i).mesh = mesh ∧
          (s' i).store = (Layout.single 3).store ps' i := by
  obtain ⟨hsame, hboth⟩ := schedule_of_layout Sample.isMade rfl Sample.fleet.writer
    Sample.single.writer (fun _ _ => Forces.frozen_none) (fun _ _ => Forces.frozen_none)
    Sample.layout (Layout.single 3) (fun i => Sample.particle i) 2
  have hsome : (Sample.fleet.after? (Sample.layout.store fun i => Sample.particle i) 2).isSome := by
    decide +kernel
  obtain ⟨s, hs⟩ := Option.isSome_iff_exists.1 hsome
  obtain ⟨s', hs'⟩ := Option.isSome_iff_exists.1 (hsame.symm.trans hsome)
  exact ⟨s, s', hs, hs', (hboth s s' hs hs').1⟩

end Fleet

end BlockStep

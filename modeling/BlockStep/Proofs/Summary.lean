import BlockStep.DryRun
import BlockStep.Proofs.Columns
import BlockStep.Proofs.Ledger

namespace BlockStep

variable {β γ : Type}

namespace Checked

/-- What has passed is a value for which `P`. -/
def All (P : β → Prop) : Checked β → Prop
  | passed b => P b
  | refused _ => True

variable {P : β → Prop} {Q : γ → Prop}

theorem all_true (x : Checked β) : x.All fun _ => True := by
  cases x <;> trivial

theorem All.mono {x : Checked β} {R : β → Prop} (h : x.All P) (hR : ∀ b, P b → R b) : x.All R := by
  cases x with
  | passed b => exact hR b h
  | refused cs => trivial

theorem All.map {x : Checked β} {f : β → γ} (h : x.All fun b => Q (f b)) : (x.map f).All Q := by
  cases x with
  | passed b => exact h
  | refused cs => trivial

theorem All.both {f : Checked (β → γ)} {x : Checked β} (h : f.All fun g => ∀ b, Q (g b)) :
    (f <*> x).All Q := by
  cases f with
  | passed g =>
    cases x with
    | passed b => exact h b
    | refused cs => trivial
  | refused cs => cases x <;> trivial

theorem All.within {x : Checked β} (h : x.All P) (p : Place) : (x.within p).All P := by
  cases x with
  | passed b => exact h
  | refused cs => trivial

theorem All.andThen {x : Checked β} {f : β → Checked γ} (h : x.All P)
    (hf : ∀ b, P b → (f b).All Q) : (x.andThen f).All Q := by
  cases x with
  | passed b => exact hf b h
  | refused cs => trivial

end Checked

namespace Section

variable {P : β → Prop} {check : Value → Checked β}

theorem all_setting {usual : β} (h : P usual) (hc : ∀ v, (check v).All P) (es : Keyed Value)
    (name : String) : (setting es name usual check).All P := by
  rw [setting]
  split
  · exact (hc _).within _
  · exact h

theorem all_needed (hc : ∀ v, (check v).All P) (es : Keyed Value) (name : String) :
    (needed es name check).All P := by
  rw [needed]
  split
  · exact (hc _).within _
  · trivial

theorem all_read {check : Keyed Value → Checked β} (hc : ∀ es, (check es).All P) (v : Value) :
    (read check v).All P := by
  rw [read.eq_def]
  split
  · exact hc _
  · trivial

theorem all_demand {b : β} (h : P b) (isMet : Bool) (rule : Rule) :
    (demand b isMet rule).All P := by
  rw [demand]
  split
  · exact h
  · trivial

theorem all_wholeBetween (least greatest : Int) (v : Value) :
    (wholeBetween least greatest v).All fun i => least ≤ i ∧ i ≤ greatest := by
  refine (Checked.all_true _).andThen fun i _ => ?_
  split
  · trivial
  · split
    · trivial
    · exact ⟨by omega, by omega⟩

end Section

def TimelineConfig.HasBins (c : TimelineConfig Float) : Prop := 4 ≤ c.bins ∧ c.bins ≤ Fault.mostBins

open Section in
theorem TimelineConfig.all_check (v : Value) : (check v).All HasBins := by
  refine all_read (fun es => ?_) v
  refine Checked.All.andThen (P := HasBins) (.both (.both (.both (.map (.map ?_)))))
    fun c hc => all_demand hc _ _
  have husual : (4 : Int) ≤ 29 ∧ (29 : Int) ≤ Fault.mostBins := by decide
  have hbins := all_setting (P := fun i : Int => 4 ≤ i ∧ i ≤ Fault.mostBins) husual
    (all_wholeBetween 4 Fault.mostBins) es "timebins"
  refine hbins.mono fun i hi _ _ _ => ?_
  show 4 ≤ i.toNat ∧ i.toNat ≤ Fault.mostBins
  omega

open Section in
theorem Config.all_check (v : Value) : (check v).All fun c => c.timeline.HasBins := by
  refine all_read (fun es => ?_) v
  split
  · have htimeline := all_needed TimelineConfig.all_check es "timeline"
    exact .both (.both (.both (.both (.both (.both (.both (.both (.both (.map
      (htimeline.mono fun _ h _ _ _ _ _ _ _ _ _ => h))))))))))
  · trivial

theorem ok_of_bind {ε : Type} {x : Except ε β} {f : β → Except ε γ} {c : γ} (h : x >>= f = .ok c) :
    ∃ b, x = .ok b ∧ f b = .ok c := by
  cases x with
  | error e => cases h
  | ok b => exact ⟨b, rfl, h⟩

theorem Settings.hasBins_of_load {path text : String} {overrides : List String} {c : Config Float}
    (h : load path text overrides = .ok c) : c.timeline.HasBins := by
  rw [load] at h
  split at h
  · cases h
  next node _ =>
    obtain ⟨document, -, h⟩ := ok_of_bind h
    dsimp only at h
    split at h
    · cases h
    · split at h
      · cases h
      · split at h
        next c' hcheck =>
          cases h
          have hall := Config.all_check (Override.applyAll document overrides).1
          rw [hcheck] at hall
          exact hall
        · cases h

namespace DryRun

theorem hasBins_of_configOf {files : Files} {a : Arguments} {c : Config Float}
    {overrides : List String} (h : configOf files a = .ok (c, overrides)) : c.timeline.HasBins := by
  rw [configOf] at h
  obtain ⟨os, -, h⟩ := ok_of_bind h
  dsimp only at h
  split at h
  · cases h
  · split at h
    next c' hload =>
      cases h
      exact Settings.hasBins_of_load hload
    · cases h

/-- A run ends with a result for which `P`, or it is refused, and then `Q`. -/
def Ends (P : Result → Prop) (Q : Prop) : Except Refusal Result → Prop
  | .ok r => P r
  | .error _ => Q

/-- The end of the cycles of a rank: their reports or a fault, and the rank. -/
abbrev Cycles (u : Setup Float) := Outcome Float (Stepper Float u.bins) (List (Report Float))

def RunsOn (c : Config Float) (a : Arguments) (columns : Keyed Value) (u : Setup Float)
    (o : Cycles u) : Prop :=
  ∃ store s, (prepare c (a.particles.getD "") columns ()).alone.result = .ok (u, store) ∧
    Stepper.made? u store = some s ∧ (Stepper.run u none a.cycles s).alone = o

/-- The cycles that a command line asks for, from the files that it names. -/
def Runs (files : Files) (args : List String) (c : Config Float) (u : Setup Float)
    (o : Cycles u) : Prop :=
  ∃ a overrides columns, Arguments.parse args = .accepted a ∧
    configOf files a = .ok (c, overrides) ∧ columnsOf files a = .ok columns ∧ RunsOn c a columns u o

/-- The cycles have ended by another fault than a degenerate step. -/
def Fails {u : Setup Float} (o : Cycles u) : Prop :=
  ∃ e, o.result = .error e ∧ e.degenerate? = none

def Closes {u : Setup Float} (o : Cycles u) (r : Status × Nat) : Prop :=
  (∃ reports, o.result = .ok reports ∧ r = (.ok, reports.length)) ∨
    ∃ count, o.result = .error (.degenerateSteps count) ∧ r = (.degenerateStep, 0)

theorem alone_runCycles (u : Setup Float) (settings : String) (cycles : Int)
    (s : Stepper Float u.bins) :
    (runCycles u settings cycles).Alone (fun _ _ => Fails (Stepper.run u none cycles s).alone) s
      fun r t => t = (Stepper.run u none cycles s).alone.state ∧
        Closes (Stepper.run u none cycles s).alone r := by
  rw [runCycles]
  refine Act.alone_bind.2 (Act.alone_tell.2 (Act.alone_bind.2 ?_))
  change Act.Outcome.Is _ _ (Collective.answer _ ((Stepper.run u none cycles s).map _))
  rw [Collective.answer_map]
  simp only [Collective.alone]
  generalize (Stepper.run u none cycles s).answer (fun _ v => v) = o
  obtain ⟨result, t, es⟩ := o
  have hrest (r : Status × Nat) (hr : Closes (⟨result, t, es⟩ : Cycles u) r) :
      (do
        let s ← Act.get
        Act.tell (.stage Event.runChannel "done"
          [("status", .text r.1.name), ("cycles", .whole s.cycle)])
        pure r : Act Float (Stepper Float u.bins) (Status × Nat)).Alone
          (fun _ _ => Fails (⟨result, t, es⟩ : Cycles u)) t
          fun r' t' => t' = t ∧ Closes (⟨result, t, es⟩ : Cycles u) r' := by
    refine Act.alone_bind.2 (Act.alone_get.2 (Act.alone_bind.2 (Act.alone_tell.2 ?_)))
    exact Act.alone_pure.2 ⟨rfl, hr⟩
  cases result with
  | ok reports => exact hrest (.ok, reports.length) (.inl ⟨reports, rfl, rfl⟩)
  | error e =>
    cases e with
    | degenerateSteps count => exact hrest (.degenerateStep, 0) (.inr ⟨count, rfl, rfl⟩)
    | _ => exact ⟨_, rfl, rfl⟩

end DryRun

namespace Stepper.Balanced

variable {α : Type} [Scalar α] {u : Setup α} {s : Stepper α u.bins}

omit [Scalar α] in
theorem column_cycle (h : s.Balanced u) : (historyOf s.rows).column "cycle" =
    ((List.range s.rows.length).map fun k : Nat => some (Cell.whole k)).toArray := by
  rw [BlockStep.column_cycle]
  congr 1
  apply List.ext_getElem
  · rw [List.length_map, List.length_map, List.length_range]
  · intro k hk hk'
    rw [List.length_map] at hk
    rw [List.getElem_map, List.getElem_map, List.getElem_range,
      h.numbered k s.rows[k] (List.getElem?_eq_getElem hk)]

end Stepper.Balanced

namespace DryRun

/-- What a run sums up is what its books hold at the end. -/
structure Result.Agrees (r : Result) (c : Config Float) {u : Setup Float} (o : Cycles u) :
    Prop where
  status : Keyed.lookup "status" r.summary = some (.text r.status.name)
  ended : (∃ reports, o.result = .ok reports ∧ r.status = .ok) ∨
    ∃ count, o.result = .error (.degenerateSteps count) ∧ r.status = .degenerateStep
  cycles : Keyed.lookup "cycles" r.summary = some (.whole o.state.rows.length)
  reported : Keyed.lookup "cycles_this_run" r.summary =
    some (.whole (if r.status = .ok then o.state.rows.length else 0 : Nat))
  particles : Keyed.lookup "particles" r.summary = some (.whole o.state.store.size)
  counts : ∃ counts : List Int, Registry.sum counts = o.state.store.size ∧
    Keyed.lookup "bin_count" r.summary = some (.list (counts.map .whole))
  history : r.history = historyIf c o.state
  size : (historyOf o.state.rows).size = o.state.rows.length
  /-- The rows have the numbers from 0 on. -/
  numbered : (historyOf o.state.rows).column "cycle" =
    ((List.range o.state.rows.length).map fun k : Nat => some (Cell.whole k)).toArray
  /-- Each row is at a later tick than the one before. -/
  ascending : ∃ ticks : List Int, ticks.length = o.state.rows.length ∧ ticks.Pairwise (· < ·) ∧
    (historyOf o.state.rows).column "absolute_tick" =
      (ticks.map fun t => some (Cell.whole t)).toArray
  exitCode : r.status.exitCode = 2 ↔ r.status = .degenerateStep
  snapshot : (c.writer 0).path Event.emergencyId ∈ r.snapshots.names ↔ r.status = .degenerateStep

theorem prepared {c : Config Float} (hc : c.timeline.HasBins) (path : String)
    (columns : Keyed Value) : (prepare c path columns).Alone (fun _ _ => True) ()
      fun r _ => r.1.IsMade ∧ r.1.writer = some (c.writer 0) := by
  have hmade (t : Unit) := Setup.IsMade.always_ofConfig (Nat.le_trans (by decide) hc.1) hc.2
    (.table KickTable.usualSamples) true (some (c.writer 0)) t
  refine Act.Always.alone (Act.always_bind.2 ((Act.always_true _ _).mono ?_ fun _ _ h => h))
  intro store _ _
  refine Act.always_bind.2 (Act.always_tell.2
    (Act.always_bind.2 ((hmade _).mono ?_ fun _ _ h => h)))
  exact fun u _ hu => Act.always_pure.2 ⟨hu.1, hu.2.2⟩

section Result

variable {c : Config Float} {u : Setup Float} {o : Cycles u} {r : Status × Nat}

def resultOf (c : Config Float) (quiet : Bool) (o : Cycles u) (r : Status × Nat) : Result where
  status := r.1
  level := if quiet then .warning else .info
  directory := c.output.directory
  summary := summaryOf u o.state r.1 r.2
  history := historyIf c o.state
  snapshots := (u.writer.map o.state.archive).getD []

/-- The books at the end of a run: the cycles that are reported are those with rows, unless a
degenerate step has left a snapshot. -/
structure Books (u : Setup Float) (o : Cycles u) (r : Status × Nat) : Prop where
  balanced : o.state.Balanced u
  closes : (∃ reports, o.result = .ok reports ∧ r = (.ok, o.state.rows.length) ∧
      o.state.shots = []) ∨
    ∃ count shot, o.result = .error (.degenerateSteps count) ∧ r = (.degenerateStep, 0) ∧
      o.state.shots = [(Event.emergencyId, shot)]

theorem Books.of_closes (hu : u.IsMade) {s : Stepper Float u.bins} (h : s.Open u) (hs : s.rows = [])
    {count : Int} (hr : Closes (Stepper.run u none count s).alone r) :
    Books u (Stepper.run u none count s).alone r := by
  have hrun := h.run hu Forces.keepBooks_none count
  rw [Act.Alone, Act.Outcome.Is] at hrun
  generalize (Stepper.run u none count s).alone = o at hr hrun
  rcases hr with ⟨reports, hresult, rfl⟩ | ⟨faults, hresult, rfl⟩
  · rw [hresult] at hrun
    obtain ⟨hopen, hlength⟩ := hrun
    rw [hs, List.length_nil, Nat.zero_add] at hlength
    exact ⟨hopen.toBalanced, .inl ⟨reports, hresult, by rw [hlength], hopen.shots⟩⟩
  · rw [hresult] at hrun
    obtain ⟨hbalanced, shot, hshots⟩ := hrun (Option.some_ne_none faults)
    exact ⟨hbalanced, .inr ⟨faults, shot, hresult, rfl, hshots⟩⟩

theorem Books.agrees (h : Books u o r) (hw : u.writer = some (c.writer 0)) (quiet : Bool) :
    (resultOf c quiet o r).Agrees c o := by
  have hb := h.balanced
  have hfiles : (resultOf c quiet o r).snapshots = o.state.archive (c.writer 0) := by
    rw [resultOf, hw]
    rfl
  refine {
    status := by simp only [resultOf, summaryOf, Keyed.lookup, if_true]
    ended := ?_
    cycles := ?_
    reported := ?_
    particles := by simp [resultOf, summaryOf, Keyed.lookup]
    counts := ⟨o.state.registry.count.toList, hb.total, by simp [resultOf, summaryOf, Keyed.lookup]⟩
    history := rfl
    size := size_historyOf o.state.rows
    numbered := hb.column_cycle
    ascending := ⟨o.state.rows.map (·.absoluteTick), List.length_map _,
      List.pairwise_map.2 hb.ascending, ?_⟩
    exitCode := ?_
    snapshot := ?_ }
  · rcases h.closes with ⟨reports, hresult, rfl, -⟩ | ⟨count, shot, hresult, rfl, -⟩
    · exact .inl ⟨reports, hresult, rfl⟩
    · exact .inr ⟨count, hresult, rfl⟩
  · simp [resultOf, summaryOf, Keyed.lookup, hb.cycle]
  · rcases h.closes with ⟨-, -, rfl, -⟩ | ⟨-, -, -, rfl, -⟩ <;>
      simp [resultOf, summaryOf, Keyed.lookup]
  · rw [column_absolute_tick, List.map_map]
    rfl
  · rcases r with ⟨_ | _, n⟩ <;> simp [resultOf, Status.exitCode]
  · rw [hfiles]
    rcases h.closes with ⟨-, -, rfl, hshots⟩ | ⟨-, shot, -, rfl, hshots⟩
    · simp [Stepper.archive, hshots, Keyed.names, resultOf]
    · simp [Stepper.archive, hshots, Keyed.names, resultOf, SnapshotWriter.write, Keyed.put]

end Result

/-- A run on one rank sums up the books of its cycles, or it has none that come to an end. -/
theorem runAlone_agrees {c : Config Float} (hc : c.timeline.HasBins) (a : Arguments)
    (columns : Keyed Value) :
    Ends (fun r => ∃ (u : Setup Float) (o : Cycles u), RunsOn c a columns u o ∧ r.Agrees c o)
      (∀ (u : Setup Float) (o : Cycles u), RunsOn c a columns u o → Fails o)
      (runAlone c a columns).1 := by
  rw [runAlone]
  have hprepared := prepared hc (a.particles.getD "") columns
  rw [Act.Alone, Act.Outcome.Is] at hprepared
  dsimp only
  split
  next e hmade =>
    rintro u o ⟨store, s, hmade', -⟩
    cases hmade.symm.trans hmade'
  next u store hmade =>
    rw [hmade] at hprepared
    obtain ⟨hu, hw⟩ := hprepared
    split
    next e hstart =>
      rintro u' o ⟨store', s, hmade', hfirst, -⟩
      cases hmade.symm.trans hmade'
      rw [Stepper.made?, hstart] at hfirst
      cases hfirst
    next s hstart =>
      have hfirst : Stepper.made? u store = if (Stepper.initBins u s).alone.result.isOk then
          some (Stepper.initBins u s).alone.state else none := by
        rw [Stepper.made?, hstart]
      split
      next e hinit =>
        rintro u' o ⟨store', s', hmade', hfirst', -⟩
        cases hmade.symm.trans hmade'
        rw [hfirst, hinit] at hfirst'
        cases hfirst'
      next hinit =>
        rw [hinit] at hfirst
        replace hfirst : _ = some _ := hfirst
        generalize (Stepper.initBins u s).alone.state = first at hfirst
        obtain ⟨hopen, hrows⟩ := Stepper.Open.of_made? hu hfirst
        have hcycles := alone_runCycles u (a.config.getD "") a.cycles first
        rw [Act.Alone, Act.Outcome.Is] at hcycles
        split
        next e hresult =>
          rw [hresult] at hcycles
          rintro u' o ⟨store', s', hmade', hfirst', rfl⟩
          cases hmade.symm.trans hmade'
          cases hfirst.symm.trans hfirst'
          exact hcycles
        next status reported hresult =>
          rw [hresult] at hcycles
          obtain ⟨hstate, hcloses⟩ := hcycles
          have hbooks := Books.of_closes hu hopen hrows hcloses
          refine ⟨u, _, ⟨store, first, hmade, hfirst, rfl⟩, ?_⟩
          rw [hstate]
          exact hbooks.agrees hw (a.quiet.getD c.output.quiet)

/-- A command line has a summary just if its cycles come to an end or to a degenerate step, and then
the summary agrees with the history, apart from the number of reported cycles: this is 0 after a
degenerate step. -/
theorem summary_agrees (files : Files) (args : List String) :
    Ends (fun r => ∃ (c : Config Float) (u : Setup Float) (o : Cycles u),
        Runs files args c u o ∧ r.Agrees c o)
      (∀ (c : Config Float) (u : Setup Float) (o : Cycles u), Runs files args c u o → Fails o)
      (run files args).1 := by
  rw [run]
  split
  next hargs =>
    rintro c u o ⟨a, overrides, columns, hargs', -⟩
    cases hargs.symm.trans hargs'
  next hargs =>
    rintro c u o ⟨a, overrides, columns, hargs', -⟩
    cases hargs.symm.trans hargs'
  next a hargs =>
    split
    next e hconfig =>
      rintro c u o ⟨a', overrides, columns, hargs', hconfig', -⟩
      cases hargs.symm.trans hargs'
      cases hconfig.symm.trans hconfig'
    next c overrides hconfig =>
      dsimp only
      split
      next e hcolumns =>
        rintro c' u o ⟨a', overrides', columns, hargs', hconfig', hcolumns', -⟩
        cases hargs.symm.trans hargs'
        cases hcolumns.symm.trans hcolumns'
      next columns hcolumns =>
        have hrun := runAlone_agrees (hasBins_of_configOf hconfig) a columns
        dsimp only
        generalize (runAlone c a columns).1 = result at hrun
        cases result with
        | error e =>
          rintro c' u o ⟨a', overrides', columns', hargs', hconfig', hcolumns', ho⟩
          cases hargs.symm.trans hargs'
          cases hconfig.symm.trans hconfig'
          cases hcolumns.symm.trans hcolumns'
          exact hrun u o ho
        | ok r =>
          obtain ⟨u, o, ho, hagrees⟩ := hrun
          exact ⟨c, u, o, ⟨a, overrides, columns, hargs, hconfig, hcolumns, ho⟩, hagrees⟩

end DryRun

end BlockStep

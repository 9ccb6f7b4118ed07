import BlockStep.Proofs.Frame
import BlockStep.Proofs.MaskBits
import BlockStep.Proofs.RowLog

namespace BlockStep

variable {α : Type} {m n : Nat}

theorem records_historyOf (rows : List (Row α)) :
    (historyOf rows).records = rows.map Row.record := by
  have hlogs : (historyOf rows).Logs History.usualNames (rows.map Row.record) := by
    rw [historyOf_eq]
    apply (History.logs_ofNames History.nodup_usualNames).foldl_append
    intro record hrecord name hname
    rwa [names_of_mem_records hrecord] at hname
  have hself : ∀ record ∈ rows.map Row.record,
      History.filled History.usualNames record = record := by
    intro record hrecord
    have hnames := names_of_mem_records hrecord
    rw [← hnames]
    exact History.filled_self (hnames ▸ History.nodup_usualNames)
  rw [hlogs.records_eq]
  exact (List.map_congr_left hself).trans (List.map_id _)

/-- The mask of a record has all bits up to the greatest bin that was due at its tick. -/
def History.TellsDue (n : Nat) (record : Record (Cell α)) : Prop :=
  ∃ tick v, entryOf "local_tick" record = some (.whole tick) ∧
    IsGreatest (Registry.dueBins n tick) v ∧
    entryOf "active_binmask" record = some (.whole (pow2 (v + 1) - 1))

/-- The mask of a row has all bits up to the greatest bin that was due at its tick. -/
def Row.TellsDue (n : Nat) (row : Row α) : Prop :=
  ∃ v, IsGreatest (Registry.dueBins n row.report.tick.localTick) v ∧
    row.digest.binmask = pow2 (v + 1) - 1

theorem Row.TellsDue.record {row : Row α} (h : row.TellsDue n) : History.TellsDue n row.record := by
  obtain ⟨v, hv, hmask⟩ := h
  refine ⟨_, v, rfl, hv, ?_⟩
  rw [← hmask]
  rfl

def Operation.isCycle : Operation → Bool
  | .cycle => true
  | _ => false

namespace Stepper

variable {u : Setup α} {forces : Option (Forces α)} {s t : Stepper α n}

/-- What stays from the marking of the due bins until the row is made. -/
def marked (s : Stepper α n) : List (Row α) × Vector Bool n := (s.rows, s.registry.active)

theorem Framed.marked_eq (h : Framed u s t) : t.marked = s.marked := Prod.ext h.rows h.mask

variable [Scalar α]

theorem Concluded.marked_eq {toMiddle : Bool} (h : Concluded u toMiddle s t) :
    t.marked = s.marked := Prod.ext h.reaches.rows h.reaches.mask

theorem keeps_proceed (toMiddle : Bool) : (proceed u toMiddle : Step α n Nat).Keeps marked := by
  intro s
  rw [proceed]
  apply Act.always_bind.2
  apply Act.always_get.2
  apply Act.always_bind.2
  apply (always_choose_isStep s).mono
  · rintro a t ⟨rfl, ha⟩
    exact (always_carryOut_framed ha).mono (fun _ _ h => h.marked_eq) fun _ _ h => h.marked_eq
  · intro _ t ht
    rw [ht]

theorem keeps_advance (toMiddle : Bool) : (advance u toMiddle : Step α n Nat).Keeps marked := by
  rw [advance_eq]
  exact .bind (.modify fun _ => rfl) fun _ => .bind (keeps_relax fun _ _ => rfl) fun _ =>
    keeps_proceed toMiddle

theorem always_turnover : (turnover u forces).Always (fun _ t => t.rows = s.rows) s fun e t =>
    t.rows = s.rows ∧ t.registry.active = Registry.dueMask n e.1.localTick := by
  have hrows {t t' : Stepper α n} (h : t'.marked = t.marked) : t'.rows = t.rows := congrArg (·.1) h
  have hmask {t t' : Stepper α n} (h : t'.marked = t.marked) :
      t'.registry.active = t.registry.active := congrArg (·.2) h
  simp only [turnover, lead, bind_assoc, pure_bind]
  apply Act.always_bind.2
  apply (always_synchronize.and (keeps_synchronize s)).mono ?_ fun _ _ h => congrArg (·.2.2.1) h.2
  rintro r s₁ ⟨⟨hready, -⟩, hlog⟩
  have hrows₁ : s₁.rows = s.rows := congrArg (·.2.2.1) hlog
  have hprepare : (prepare u forces r.1 : Step α n Nat).Keeps marked :=
    keeps_prepare_of (fun _ _ => rfl) (fun _ _ _ => rfl) forces r.1
  apply Act.always_bind.2
  apply (hprepare s₁).mono ?_ fun _ _ h => (hrows h).trans hrows₁
  intro active s₂ h₂
  apply Act.always_bind.2
  apply (keeps_proceed true s₂).mono ?_ fun _ _ h => (hrows (h.trans h₂)).trans hrows₁
  intro _ s₃ h₃
  have h : s₃.marked = s₁.marked := h₃.trans h₂
  apply Act.always_pure.2
  exact ⟨(hrows h).trans hrows₁, (hmask h).trans hready.marked⟩

structure Recorded (cycles : Nat) (s : Stepper α n) : Prop where
  length : s.rows.length = cycles
  tells : ∀ row ∈ s.rows, row.TellsDue n

namespace Recorded

variable {cycles : Nat}

omit [Scalar α]

theorem of_rows (h : s.Recorded cycles) (ht : t.rows = s.rows) : t.Recorded cycles :=
  ⟨ht ▸ h.length, ht ▸ h.tells⟩

theorem append (h : s.Recorded cycles) {row : Row α} (hrow : row.TellsDue n)
    (ht : t.rows = s.rows ++ [row]) : t.Recorded (cycles + 1) where
  length := by rw [ht, List.length_append, h.length, List.length_singleton]
  tells r hr := by
    rw [ht] at hr
    rcases List.mem_append.1 hr with hold | hnew
    · exact h.tells r hold
    · rwa [List.mem_singleton.1 hnew]

/-- The history of the rank has a record for each of the cycles. -/
theorem history (h : s.Recorded cycles) : (historyOf s.rows).records.length = cycles ∧
    ∀ record ∈ (historyOf s.rows).records, History.TellsDue n record := by
  rw [records_historyOf, List.length_map]
  refine ⟨h.length, ?_⟩
  intro record hrecord
  obtain ⟨row, hrow, rfl⟩ := List.mem_map.1 hrecord
  exact (h.tells row hrow).record

end Recorded

section Recorded

variable {cycles : Nat} (hn : 0 < n) (hn' : n ≤ 63) (h : s.Recorded cycles)

include hn hn' h

theorem always_openCycle : (openCycle u forces).Always (fun _ t => t.Recorded cycles) s
    fun _ t => t.Recorded (cycles + 1) := by
  rw [openCycle]
  apply Act.always_bind.2
  apply Act.always_onFault.2
  apply always_turnover.mono
  case hE => exact fun _ t ht => h.of_rows ht
  intro e t ht
  obtain ⟨hrows, hmask⟩ := ht
  obtain ⟨v, hv⟩ := Registry.exists_isGreatest_dueBins hn e.1.localTick
  have hrow : (t.row u e.1 e.2.1 e.2.2).TellsDue n :=
    ⟨v, hv, Registry.binmask_of_marked hn' hmask hv⟩
  apply Act.always_bind.2
  apply Act.always_get.2
  apply Act.always_bind.2
  apply Act.always_set.2
  apply Act.always_pure.2
  apply h.append hrow
  rw [← hrows]

theorem always_runCycle_recorded : (runCycle u forces).Always (fun _ t => t.Recorded cycles) s
    fun _ t => t.Recorded (cycles + 1) :=
  always_runCycle_of_open h h (always_openCycle hn hn' h)

theorem always_operate (op : Operation) : (operate u forces op).Always
    (fun _ t => t.Recorded cycles) s
    fun _ t => t.Recorded (cycles + if op.isCycle then 1 else 0) := by
  have hkept {x : Step α n Unit} (hx : x.Keeps Stepper.rows) : x.Always
      (fun _ t => t.Recorded cycles) s fun _ t => t.Recorded cycles :=
    (hx s).mono (fun _ _ => h.of_rows) fun _ _ => h.of_rows
  cases op with
  | synchronize =>
    have hrows : (synchronize u : Step α n _).Keeps Stepper.rows := keeps_synchronize.map (·.2.2.1)
    exact hkept (.bind hrows fun _ => .pure ())
  | forces => exact hkept (.bind .get fun _ => keeps_callForces (fun _ _ _ => rfl) _ _)
  | advance toMiddle =>
    have hrows : (advance u toMiddle : Step α n Nat).Keeps Stepper.rows :=
      (keeps_advance toMiddle).map (·.1)
    exact hkept (.bind hrows fun _ => .pure ())
  | halfKick => exact hkept (.bind .get fun _ => (keeps_onStore _).map (·.2.2.2.2.1))
  | cycle =>
    apply Act.always_bind.2
    apply (always_runCycle_recorded hn hn' h).mono ?_ fun _ _ ht => ht
    intro _ t ht
    exact Act.always_pure.2 ht

end Recorded

end Stepper

namespace Fleet

variable [Scalar α] {f : Fleet α m} {store : Ranks m (Store α)} {ops : Nat → Operation} {k : Nat}
  {s : Ranks m (Stepper α f.setup.bins)}

/-- The number of cycles among the first `k` operations. -/
def cyclesAmong (ops : Nat → Operation) (k : Nat) : Nat :=
  (List.range k).countP fun j => (ops j).isCycle

theorem cyclesAmong_succ (ops : Nat → Operation) (k : Nat) :
    cyclesAmong ops (k + 1) = cyclesAmong ops k + if (ops k).isCycle then 1 else 0 := by
  rw [cyclesAmong, List.range_succ, List.countP_append, List.countP_singleton]
  rfl

theorem always_operate (hu : f.setup.IsMade) {i : Fin (m + 1)} {cycles : Nat}
    (h : (s i).Recorded cycles) (k : Nat) (op : Operation) : (f.operate k op i).Always
    (fun _ t => t.Recorded cycles) (s i)
    fun _ t => t.Recorded (cycles + if op.isCycle then 1 else 0) := by
  have htwo := hu.two_le
  have hmost := hu.le_62
  exact Stepper.always_operate (by omega) (by omega) h op

theorem recorded_of_performed? (hu : f.setup.IsMade) (h : f.performed? store ops k = some s)
    (i : Fin (m + 1)) : (s i).Recorded (cyclesAmong ops k) := by
  induction k generalizing s i with
  | zero =>
    obtain ⟨-, -, hrecords⟩ := Stepper.ready_of_made? (made?_of_first? h i)
    have hrows : (s i).rows = [] := congrArg (·.2.1) hrecords
    exact ⟨congrArg List.length hrows, fun row hrow => absurd (hrows ▸ hrow) List.not_mem_nil⟩
  | succ k ih =>
    obtain ⟨t, ht, hs⟩ := performed?_succ.1 h
    obtain ⟨b, hb⟩ := Ranks.exists_finish_of_states? hs
    rw [cyclesAmong_succ]
    exact (hb.settles i).of_always fun j => always_operate hu (ih ht j) k (ops k)

theorem exists_recorded (hu : f.setup.IsMade) (h : f.performed? store ops k = some s)
    {i : Fin (m + 1)} {r : Except Fault Unit} {t : Stepper α f.setup.bins}
    (ht : Ranks.Settles (f.operate k (ops k)) s i r t) : ∃ cycles, t.Recorded cycles := by
  have hx (j : Fin (m + 1)) := always_operate hu (recorded_of_performed? hu h j) k (ops k)
  cases r with
  | ok _ => exact ⟨_, ht.of_always hx⟩
  | error _ => exact ⟨_, ht.of_always_error hx⟩

end Fleet

/-- A table of at most 63 bins restores each mask from its number, and reads each word, negative or
not, modulo `pow2 n`. After any operations of ranks each history has a record for every cycle, and
also where ranks then come to an end apart from each other, each record has the mask of the bins up
to the greatest whose cadence divides its tick. -/
theorem active_masks_are_faithful [Scalar α] :
    (∀ n ≤ 63, ∀ r : Registry n,
      (∀ mask : Vector Bool n, ∃ r₁, r.setMask mask.toList = .ok r₁ ∧ r₁.active = mask ∧
        ∀ r₂ : Registry n, r₂.setBinmask r₁.digest.binmask = .ok { r₂ with active := mask }) ∧
      ∀ x, Word.Holds x → ∃ r₁, r.setBinmask x = .ok r₁ ∧ r₁.digest.binmask = x % pow2 n ∧
        ∀ b < n, r₁.isActive b = x.testBit b) ∧
    ∀ (f : Fleet α m) store ops k s, f.setup.IsMade → f.performed? store ops k = some s →
      (∀ i, (historyOf (s i).rows).records.length = Fleet.cyclesAmong ops k ∧
        ∀ record ∈ (historyOf (s i).rows).records, History.TellsDue f.setup.bins record) ∧
      ∀ i r t, Ranks.Settles (f.operate k (ops k)) s i r t →
        ∀ record ∈ (historyOf t.rows).records, History.TellsDue f.setup.bins record := by
  constructor
  · intro n hn r
    constructor
    · intro mask
      exact ⟨{ r with active := mask }, r.setMask_toList mask, rfl,
        Registry.setBinmask_binmask hn { r with active := mask }⟩
    · intro x hx
      exact r.exists_setBinmask hn hx
  · intro f store ops k s hu h
    constructor
    · intro i
      exact (Fleet.recorded_of_performed? hu h i).history
    · intro i r t ht
      obtain ⟨cycles, hrecorded⟩ := Fleet.exists_recorded hu h ht
      exact hrecorded.history.2

theorem active_masks_are_faithful_sample :
    (∃ r : Registry 3, (Registry.empty 3).setMask [true, false, true] = .ok r ∧
      (Registry.empty 3).setBinmask r.digest.binmask =
        .ok { Registry.empty 3 with active := #v[true, false, true] }) ∧
    (∃ r : Registry 3, (Registry.empty 3).setBinmask (-3) = .ok r ∧ r.digest.binmask = 5 ∧
      ¬ r.isActive 1) ∧
    ∃ s, Sample.fleet.performed? Sample.store Sample.operations 6 = some s ∧
      (historyOf (s 0).rows).records.length = 2 ∧
      ∀ record ∈ (historyOf (s 0).rows).records,
        History.TellsDue Sample.fleet.setup.bins record := by
  obtain ⟨hregistry, hrun⟩ := active_masks_are_faithful (α := Rat) (m := 1)
  obtain ⟨hrestores, hreads⟩ := hregistry 3 (by decide) (.empty 3)
  obtain ⟨r, hset, -, hrestored⟩ := hrestores #v[true, false, true]
  obtain ⟨r', hread, hmask, hbits⟩ := hreads (-3) (by decide)
  have hinactive : ¬ r'.isActive 1 := by
    rw [hbits 1 (by decide)]
    decide
  have hsome : (Sample.fleet.performed? Sample.store Sample.operations 6).isSome := by
    decide +kernel
  obtain ⟨s, hs⟩ := Option.isSome_iff_exists.1 hsome
  have hhistory := (hrun _ _ _ _ s Sample.isMade hs).1 0
  exact ⟨⟨r, hset, hrestored _⟩, ⟨r', hread, hmask, hinactive⟩, s, hs, hhistory⟩

end BlockStep

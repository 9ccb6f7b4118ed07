import BlockStep.Proofs.FileNames
import BlockStep.Proofs.Restored
import BlockStep.Stepper

namespace BlockStep

namespace SnapshotFormat

/-- What a format may be called: nothing and an empty name stand for the binary one. -/
inductive IsSpelling : Option String → SnapshotFormat → Prop
  | unnamed : IsSpelling none binary
  | empty : IsSpelling (some "") binary
  | named {name : String} {format : SnapshotFormat} (h : Text.lower name = format.name) :
    IsSpelling (some name) format

theorem lower_empty : Text.lower "" = "" := by
  simp [Text.lower]

theorem eq_empty_of_lower {name : String} (h : Text.lower name = "") : name = "" := by
  have hlist := congrArg String.toList h
  simpa [Text.lower] using hlist

/-- The accepted names are these. -/
theorem ofName_eq_ok_iff {spelling : Option String} {format : SnapshotFormat} :
    ofName spelling = .ok format ↔ IsSpelling spelling format := by
  constructor
  · intro h
    cases spelling with
    | none =>
      cases h
      exact .unnamed
    | some name =>
      simp only [ofName, Option.map_some] at h
      split at h
      next hlower => cases hlower
      next hlower =>
        cases h
        rw [eq_empty_of_lower (Option.some.inj hlower)]
        exact .empty
      next hlower =>
        cases h
        exact .named (Option.some.inj hlower)
      next hlower =>
        cases h
        exact .named (Option.some.inj hlower)
      next => cases h
  · intro h
    cases h with
    | unnamed => rfl
    | empty =>
      rw [ofName, Option.map_some, lower_empty]
      rfl
    | named h =>
      rw [ofName, Option.map_some, h]
      cases format <;> rfl

end SnapshotFormat

namespace Snapshot

variable {α π : Type}

theorem ofFields?_fields (s : Snapshot α π) : ofFields? s.fields = some s := by
  simp [ofFields?, fields, Keyed.lookup, Field.whole?, Field.real?, Field.wholes?, Field.flags?,
    Field.store?]

end Snapshot

structure Deposit (α : Type) (π : Type := Store α) where
  rank : Nat
  id : Int
  state : Snapshot α π

namespace Deposit

variable {α π : Type} (directory : String) (format : SnapshotFormat)

def writer (d : Deposit α π) : SnapshotWriter := .ofRank directory format d.rank

def keep (a : Archive α π) (d : Deposit α π) : Archive α π :=
  (d.writer directory format).write d.id d.state a

/-- Two deposits under one number of one rank, of which the later one stays. -/
def Replaces (later earlier : Deposit α π) : Prop :=
  later.rank = earlier.rank ∧ later.id = earlier.id

variable {directory format} {d e : Deposit α π}

theorem lookup_keep_of_not_replaces (h : ¬ e.Replaces d) (a : Archive α π) :
    Keyed.lookup ((d.writer directory format).path d.id) (e.keep directory format a) =
      Keyed.lookup ((d.writer directory format).path d.id) a :=
  Keyed.lookup_put_of_ne (fun hpath => h (SnapshotWriter.path_injective hpath.symm)) _ _

theorem lookup_foldl_keep {es : List (Deposit α π)} (h : ∀ e ∈ es, ¬ e.Replaces d)
    (a : Archive α π) :
    Keyed.lookup ((d.writer directory format).path d.id) (es.foldl (keep directory format) a) =
      Keyed.lookup ((d.writer directory format).path d.id) a := by
  induction es generalizing a with
  | nil => rfl
  | cons e es ih =>
    rw [List.foldl_cons, ih fun e' he' => h e' (List.mem_cons_of_mem e he')]
    exact lookup_keep_of_not_replaces (h e List.mem_cons_self) a

theorem read_write (s : Snapshot α π) (format : SnapshotFormat) :
    (SnapshotFile.write s format).read format = .ok s := by
  cases format with
  | binary => rfl
  | json => rw [SnapshotFile.write, SnapshotFile.read, Snapshot.ofFields?_fields]

theorem load_foldl_keep {before after : List (Deposit α π)} (h : ∀ e ∈ after, ¬ e.Replaces d)
    (a : Archive α π) :
    ((before ++ d :: after).foldl (keep directory format) a).load
      ((d.writer directory format).path d.id) none = .ok d.state := by
  have hpath := SnapshotWriter.ofPath_path directory format d.rank d.id
  rw [List.foldl_append, List.foldl_cons, Archive.load, lookup_foldl_keep h, keep,
    SnapshotWriter.write, Keyed.lookup_put_self]
  dsimp only [Option.getD_none]
  rw [writer, hpath]
  exact read_write d.state format

end Deposit

namespace SnapshotWriter

/-- What ranks that share a directory can count on, whatever they keep there and whatever has been
there before. -/
structure AreReadBack (directory : String) (spelling : Option String) (format : SnapshotFormat) :
    Prop where
  accepted : SnapshotFormat.ofName spelling = .ok format
  /-- A path belongs to one rank and one number. -/
  path_eq_iff (rank rank' : Nat) (id id' : Int) :
    (ofRank directory format rank).path id = (ofRank directory format rank').path id' ↔
      rank = rank' ∧ id = id'
  /-- The last snapshot of a rank under a number is read from its path, without a format. -/
  load {α π : Type} (archive : Archive α π) (before after : List (Deposit α π)) (d : Deposit α π)
    (h : ∀ e ∈ after, ¬ e.Replaces d) :
    ((before ++ d :: after).foldl (Deposit.keep directory format) archive).load
      ((ofRank directory format d.rank).path d.id) none = .ok d.state
  /-- The store of a run comes back with all its columns, and nothing is told. -/
  store {n : Nat} (s : Stepper Float n) (hstore : ∀ p ∈ s.store, p.IsStorable) (faults id : Int)
    (archive : Archive Float (Keyed (Shaped Value)))
    (before after : List (Deposit Float (Keyed (Shaped Value)))) (rank : Nat) (number : Int)
    (h : ∀ e ∈ after, ¬ e.Replaces ⟨rank, number, (s.snapshot faults id).withArrays⟩) :
    ∃ loaded, ((before ++ ⟨rank, number, (s.snapshot faults id).withArrays⟩ :: after).foldl
        (Deposit.keep directory format) archive).load ((ofRank directory format rank).path number)
          none = .ok loaded ∧
      ∀ σ : Type, (loaded.toStore : Act Float σ (Store Float)) = pure s.store

/-- Snapshots that are written can always be read back. -/
theorem read_back_of_spelling {spelling : Option String} {format : SnapshotFormat}
    (h : SnapshotFormat.IsSpelling spelling format) (directory : String) :
    AreReadBack directory spelling format where
  accepted := SnapshotFormat.ofName_eq_ok_iff.2 h
  path_eq_iff rank rank' id id' :=
    ⟨path_injective, fun ⟨hrank, hid⟩ => by rw [hrank, hid]⟩
  load archive _ _ _ hafter := Deposit.load_foldl_keep hafter archive
  store s hstore faults id archive _ _ _ _ hafter :=
    ⟨_, Deposit.load_foldl_keep hafter archive, fun _ => Store.ofArrays_arrays hstore⟩

def keptStepper : Stepper Float 3 where
  store := #[
    { (default : Particle Float) with id := -5, kind := 4, pos := ⟨1.5, -2.0, 0.25⟩, bin := 2 },
    { (default : Particle Float) with id := 9, energy := 40.0, stepStart := 2, kickTick := 3 }]
  registry := .empty 3
  active := [1]
  mesh := ⟨0, 4⟩
  current := ⟨0, 3⟩
  scaleFactor := 0.5
  instant := ⟨⟨0.5, 4.0, 8.0, 0.25⟩, .replicate 6 1.0⟩
  phase := .idle
  cycle := 3
  due := 1
  rows := []
  shots := []
  seen := []

def keptUnder (rank : Nat) (number faults : Int) : Deposit Float (Keyed (Shaped Value)) :=
  ⟨rank, number, (keptStepper.snapshot faults 999999).withArrays⟩

/-- Rank 12 keeps two snapshots under one number, between and after which others are kept under that
number and under others. -/
theorem read_back_of_spelling_sample : SnapshotFormat.IsSpelling (some "JSON") .json ∧
    AreReadBack "run/" (some "JSON") .json ∧
    ∃ loaded, Archive.load ([keptUnder 12 (-7) 0, keptUnder 0 (-7) 1, keptUnder 12 (-7) 2,
        keptUnder 1 (-7) 3, keptUnder 12 7 4].foldl (Deposit.keep "run/" .json) [])
          "run/snapshots/snapshot_-00007.rank12.json" none = .ok loaded ∧
      loaded.faultCount = 2 ∧
      ∀ σ : Type, (loaded.toStore : Act Float σ (Store Float)) = pure keptStepper.store := by
  have hspelling : SnapshotFormat.IsSpelling (some "JSON") .json := .named (by decide +kernel)
  have hstore : ∀ p ∈ keptStepper.store, p.IsStorable := by
    intro p hp
    simp only [keptStepper, List.mem_toArray, List.mem_cons, List.not_mem_nil, or_false] at hp
    rcases hp with rfl | rfl
    · exact ⟨by decide, by decide +kernel⟩
    · exact ⟨by decide, by decide +kernel⟩
  have hread := read_back_of_spelling hspelling "run/"
  have hpath : (ofRank "run/" .json 12).path (-7) =
      "run/snapshots/snapshot_-00007.rank12.json" := by
    decide +kernel
  have hafter : ∀ e ∈ [keptUnder 1 (-7) 3, keptUnder 12 7 4],
      ¬ e.Replaces (keptUnder 12 (-7) 2) := by
    intro e he
    simp only [List.mem_cons, List.not_mem_nil, or_false] at he
    rcases he with rfl | rfl
    · exact fun h => absurd h.1 (by decide)
    · exact fun h => absurd h.2 (by decide)
  have hload := hread.load [] [keptUnder 12 (-7) 0, keptUnder 0 (-7) 1] _ _ hafter
  obtain ⟨loaded, hloaded, htoStore⟩ := hread.store keptStepper hstore 2 999999 []
    [keptUnder 12 (-7) 0, keptUnder 0 (-7) 1] _ 12 (-7) hafter
  refine ⟨hspelling, hread, loaded, hpath ▸ hloaded, ?_, htoStore⟩
  rw [Except.ok.inj (hloaded.symm.trans hload)]
  rfl

end SnapshotWriter

end BlockStep

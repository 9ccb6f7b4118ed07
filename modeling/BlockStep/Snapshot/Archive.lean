import BlockStep.Fault
import BlockStep.Snapshot
import BlockStep.Text.Lines
import BlockStep.Text.Path

namespace BlockStep

/-- The format a name stands for, in any case; no name stands for the binary one. -/
def SnapshotFormat.ofName (name : Option String) : Except Fault SnapshotFormat :=
  match name.map Text.lower with
  | none | some "" | some "pickle" => .ok binary
  | some "json" => .ok json
  | some _ => .error (.snapshotFormat (name.getD ""))

/-- The format that the ending of a path implies. -/
def SnapshotFormat.ofPath (path : String) : SnapshotFormat :=
  if Text.lower (Text.Path.ending (Text.Path.name path)) == ".json" then json else binary

inductive SnapshotFile (α : Type) (π : Type := Store α) where
  | binary (s : Snapshot α π)
  | json (fields : Keyed (Snapshot.Field α π))

namespace SnapshotFile

variable {α π : Type}

def write (s : Snapshot α π) : SnapshotFormat → SnapshotFile α π
  | .binary => binary s
  | .json => json s.fields

def read : SnapshotFile α π → SnapshotFormat → Except Fault (Snapshot α π)
  | binary s, .binary => .ok s
  | json fields, .json =>
    match Snapshot.ofFields? fields with
    | some s => .ok s
    | none => .error .snapshotNotText
  | binary _, .json => .error .snapshotNotText
  | json _, .binary => .error .snapshotNotBinary

end SnapshotFile

/-- Files by their paths. -/
abbrev Archive (α : Type) (π : Type := Store α) := Keyed (SnapshotFile α π)

namespace Archive

variable {α π : Type}

/-- Reads a file; without a format its path implies one. -/
def load (a : Archive α π) (path : String) (format : Option SnapshotFormat) :
    Except Fault (Snapshot α π) :=
  match Keyed.lookup path a with
  | some file => file.read (format.getD (.ofPath path))
  | none => .error .snapshotNotBinary

end Archive

structure SnapshotWriter where
  directory : String
  format : SnapshotFormat
  rank : Int
deriving DecidableEq

namespace SnapshotWriter

variable {α π : Type}

def rankMark (rank : Int) : String := if rank = 0 then "" else ".rank" ++ toString rank

/-- The name of the file that keeps snapshot `id`. -/
def fileName (w : SnapshotWriter) (id : Int) : String :=
  "snapshot_" ++ Text.padded 6 id ++ rankMark w.rank ++ w.format.ending

def path (w : SnapshotWriter) (id : Int) : String :=
  Text.Path.join (Text.Path.join w.directory "snapshots") (w.fileName id)

/-- Keeps a snapshot under its number, in place of any that is there. -/
def write (w : SnapshotWriter) (id : Int) (s : Snapshot α π) (a : Archive α π) : Archive α π :=
  Keyed.put (w.path id) (.write s w.format) a

end SnapshotWriter

end BlockStep

import BlockStep.Document
import BlockStep.History
import BlockStep.Report

namespace BlockStep

def Cell.value : Cell Float → Value
  | whole i => .whole i
  | real x => .real x
  | text s => .text s

namespace History

variable {β : Type}

def entry (f : β → Value) (cell : Option β) : Value := (cell.map f).getD .null

def document (f : β → Value) (h : History β) : Keyed Value :=
  h.names.map fun name => (name, .list ((h.column name).toList.map (entry f)))

end History

end BlockStep

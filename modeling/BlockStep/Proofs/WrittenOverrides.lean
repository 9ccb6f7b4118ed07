import BlockStep.Proofs.Overrides
import BlockStep.Proofs.WrittenValues

namespace BlockStep.Override

open Text

inductive Datum where
  | whole (i : Int)
  | text (s : String)

namespace Datum

def value : Datum → Value
  | whole i => .whole i
  | text s => .text s

def written : Datum → List Char
  | whole i => (toString i).toList
  | text s => quoted s.toList

end Datum

def EndsNoLine (c : Char) : Prop := c ≠ '\n' ∧ c ≠ '\r'

instance (c : Char) : Decidable (EndsNoLine c) := inferInstanceAs (Decidable (_ ∧ _))

def InLine (cs : List Char) : Prop := ∀ c ∈ cs, EndsNoLine c

instance (cs : List Char) : Decidable (InLine cs) := List.decidableBAll _ cs

theorem inLine_cons {c : Char} {cs : List Char} :
    InLine (c :: cs) ↔ EndsNoLine c ∧ InLine cs := List.forall_mem_cons

theorem inLine_append {cs ds : List Char} : InLine (cs ++ ds) ↔ InLine cs ∧ InLine ds :=
  List.forall_mem_append

def AreBlanks (cs : List Char) : Prop := ∀ c ∈ cs, isBlank c ∧ EndsNoLine c

instance (cs : List Char) : Decidable (AreBlanks cs) := List.decidableBAll _ cs

theorem AreBlanks.inLine {cs : List Char} (h : AreBlanks cs) : InLine cs := fun c hc => (h c hc).2

theorem AreBlanks.blank {cs : List Char} (h : AreBlanks cs) : ∀ c ∈ cs, isBlank c :=
  fun c hc => (h c hc).1

namespace Datum

/-- Numbers that are not too long, and texts in one line. -/
def IsWritable : Datum → Prop
  | whole i => (Nat.toDigits 10 i.natAbs).length ≤ longestWhole
  | text s => InLine s.toList

instance (d : Datum) : Decidable d.IsWritable :=
  match d with
  | whole _ => inferInstanceAs (Decidable (_ ≤ _))
  | text _ => inferInstanceAs (Decidable (InLine _))

variable {d : Datum}

theorem value_written (h : d.IsWritable) : Override.value d.written = d.value := by
  cases d with
  | whole i => exact value_toString h
  | text s =>
    rw [written, value_quoted, String.ofList_toList]
    rfl

theorem isTight_written (d : Datum) : IsTight d.written := by
  cases d with
  | whole i => exact isTight_toString i
  | text s => exact isTight_quoted s.toList

theorem written_ne_nil (d : Datum) : d.written ≠ [] := by
  cases d with
  | whole i =>
    obtain ⟨c, hc, -⟩ := exists_last i
    intro h
    rw [written] at h
    rw [h] at hc
    cases hc
  | text s => exact List.cons_ne_nil _ _

theorem inLine_written (h : d.IsWritable) : InLine d.written := by
  cases d with
  | whole i =>
    intro c hc
    rcases mem_toString hc with rfl | hdigit
    · decide
    · constructor
      · rintro rfl
        cases hdigit
      · rintro rfl
        cases hdigit
  | text s => exact inLine_cons.2 ⟨by decide, inLine_append.2 ⟨h, by decide⟩⟩

end Datum

/-- A line without the blanks around it counts unless it is blank or a remark. -/
def counts (l : List Char) : Bool := !l.isEmpty && l.head? != some '#'

structure Entry where
  segments : List String
  datum : Datum

namespace Entry

def joined (e : Entry) : List Char := ['.'].intercalate (e.segments.map String.toList)

/-- The keys on the way; an empty segment is none. -/
def keys (e : Entry) : List String := e.segments.filter fun seg => seg != ""

def written (e : Entry) : List Char := e.joined ++ '=' :: e.datum.written

/-- The override that sets the datum. -/
def item (e : Entry) : String := String.ofList e.written

def IsSegment (seg : String) : Prop := ∀ c ∈ seg.toList, c ≠ '.' ∧ c ≠ '=' ∧ EndsNoLine c

instance (seg : String) : Decidable (IsSegment seg) := List.decidableBAll _ seg.toList

/-- What the path and the datum may hold. -/
structure IsWritable (e : Entry) : Prop where
  segments : ∀ seg ∈ e.segments, IsSegment seg
  tight : IsTight e.joined
  unmarked : e.joined.head? ≠ some '#'
  named : e.keys ≠ []
  datum : e.datum.IsWritable

instance (e : Entry) : Decidable e.IsWritable :=
  decidable_of_iff ((∀ seg ∈ e.segments, IsSegment seg) ∧ IsTight e.joined ∧
      e.joined.head? ≠ some '#' ∧ e.keys ≠ [] ∧ e.datum.IsWritable)
    ⟨fun ⟨h₁, h₂, h₃, h₄, h₅⟩ => ⟨h₁, h₂, h₃, h₄, h₅⟩,
      fun ⟨h₁, h₂, h₃, h₄, h₅⟩ => ⟨h₁, h₂, h₃, h₄, h₅⟩⟩

theorem mem_intercalate {sep : Char} {parts : List (List Char)} {c : Char}
    (h : c ∈ [sep].intercalate parts) : c = sep ∨ ∃ part ∈ parts, c ∈ part := by
  induction parts with
  | nil => cases h
  | cons part parts ih =>
    cases parts with
    | nil =>
      rw [List.intercalate_singleton] at h
      exact .inr ⟨part, List.mem_cons_self, h⟩
    | cons next parts =>
      rw [List.intercalate_cons_cons, List.mem_append, List.mem_append] at h
      rcases h with (h | h) | h
      · exact .inr ⟨part, List.mem_cons_self, h⟩
      · exact .inl (List.mem_singleton.1 h)
      · exact (ih h).imp_right fun ⟨other, hother, hc⟩ => ⟨other, List.mem_cons_of_mem _ hother, hc⟩

variable {e : Entry}

theorem IsWritable.mem_joined (h : e.IsWritable) {c : Char} (hc : c ∈ e.joined) :
    c ≠ '=' ∧ EndsNoLine c := by
  rcases mem_intercalate hc with rfl | ⟨part, hpart, hc⟩
  · exact ⟨by decide, by decide, by decide⟩
  · obtain ⟨seg, hseg, rfl⟩ := List.mem_map.1 hpart
    exact (h.segments seg hseg c hc).2

theorem IsWritable.splitOn_joined (h : e.IsWritable) :
    e.joined.splitOn '.' = e.segments.map String.toList := by
  refine List.splitOn_intercalate '.' ?_ ?_
  · intro part hpart hpoint
    obtain ⟨seg, hseg, rfl⟩ := List.mem_map.1 hpart
    exact (h.segments seg hseg '.' hpoint).1 rfl
  · intro hnil
    refine h.named ?_
    rw [keys, List.map_eq_nil_iff.1 hnil]
    rfl

theorem IsWritable.segments_joined (h : e.IsWritable) : Override.segments e.joined = e.keys := by
  have hkept :
      ((fun part : List Char => !part.isEmpty) ∘ String.toList) = fun seg => seg != "" := by
    funext seg
    rw [Bool.eq_iff_iff]
    simp
  rw [Override.segments, strip_of_isTight h.tight, h.splitOn_joined, List.filter_map, hkept,
    List.map_map, keys]
  exact (List.map_congr_left fun seg _ => String.ofList_toList).trans (List.map_id _)

theorem IsWritable.joined_ne_nil (h : e.IsWritable) : e.joined ≠ [] := by
  intro hnil
  have hkeys := h.segments_joined
  rw [hnil] at hkeys
  exact h.named hkeys.symm

theorem toList_item : e.item.toList = e.joined ++ '=' :: e.datum.written := by
  rw [item, String.toList_ofList, written]

theorem sign_mem_item : '=' ∈ e.item.toList := by
  simp [toList_item]

theorem IsWritable.takeWhile_item (h : e.IsWritable) :
    e.item.toList.takeWhile (· != '=') = e.joined := by
  rw [toList_item, List.takeWhile_append_of_pos (by simpa using fun c hc => (h.mem_joined hc).1)]
  simp

theorem IsWritable.dropWhile_item (h : e.IsWritable) :
    e.item.toList.dropWhile (· != '=') = '=' :: e.datum.written := by
  rw [toList_item, List.dropWhile_append_of_pos (by simpa using fun c hc => (h.mem_joined hc).1)]
  simp

theorem IsWritable.given_item (h : e.IsWritable) : given e.item = e.datum.value := by
  rw [given, h.dropWhile_item]
  exact Datum.value_written h.datum

theorem IsWritable.path_item (h : e.IsWritable) : path e.item = e.keys := by
  rw [path, h.takeWhile_item, h.segments_joined]

theorem IsWritable.isTight_written (h : e.IsWritable) : IsTight e.written :=
  h.tight.around h.joined_ne_nil ['='] (Datum.isTight_written _) (Datum.written_ne_nil _)

theorem IsWritable.counts_written (h : e.IsWritable) : counts e.written := by
  obtain ⟨c, rest, hjoined⟩ := List.exists_cons_of_ne_nil h.joined_ne_nil
  have hc := h.unmarked
  rw [hjoined] at hc
  rw [written, hjoined, counts]
  simpa using hc

theorem IsWritable.inLine_written (h : e.IsWritable) : InLine e.written :=
  inLine_append.2 ⟨fun _ hc => (h.mem_joined hc).2,
    inLine_cons.2 ⟨by decide, Datum.inLine_written h.datum⟩⟩

end Entry

/-- A line of a file of overrides. -/
inductive Line where
  | blank (blanks : List Char)
  | remark (blanks text : List Char)
  | entry (front : List Char) (e : Entry) (back : List Char)

namespace Line

def chars : Line → List Char
  | blank blanks => blanks
  | remark blanks text => blanks ++ '#' :: text
  | entry front e back => front ++ (e.written ++ back)

def override? : Line → Option Entry
  | entry _ e _ => some e
  | _ => none

/-- Blanks where they have to be, and all in one line. -/
def IsWritable : Line → Prop
  | blank blanks => AreBlanks blanks
  | remark blanks text => AreBlanks blanks ∧ InLine text
  | entry front e back => AreBlanks front ∧ e.IsWritable ∧ AreBlanks back

instance (l : Line) : Decidable l.IsWritable :=
  match l with
  | blank _ => inferInstanceAs (Decidable (AreBlanks _))
  | remark _ _ => inferInstanceAs (Decidable (AreBlanks _ ∧ InLine _))
  | entry _ _ _ => inferInstanceAs (Decidable (AreBlanks _ ∧ _ ∧ AreBlanks _))

end Line

inductive LineEnd where
  | feed
  | carriage
  | both

def LineEnd.chars : LineEnd → List Char
  | feed => ['\n']
  | carriage => ['\r']
  | both => ['\r', '\n']

/-- The lines of a text that count. -/
def counted (cs : List Char) : List (List Char) := ((breakLines cs).map strip).filter counts

theorem ofLines_eq (text : String) :
    ofLines text = (counted text.toList).map String.ofList := rfl

theorem breakLines_append {l cs first : List Char} {rest : List (List Char)} (hl : InLine l)
    (h : breakLines cs = first :: rest) : breakLines (l ++ cs) = (l ++ first) :: rest := by
  induction l with
  | nil => exact h
  | cons c l ih =>
    have hrest := ih fun d hd => hl d (List.mem_cons_of_mem c hd)
    obtain ⟨hfeed, hcarriage⟩ := hl c List.mem_cons_self
    have hend : ¬ (c == '\n' || c == '\r') := by simp [hfeed, hcarriage]
    rw [List.cons_append, breakLines, if_neg hend, hrest]
    · rfl
    · exact fun _ hc _ => hcarriage hc

theorem exists_breakLines_end (e : LineEnd) (cs : List Char) : ∃ rest,
    breakLines (e.chars ++ cs) = [] :: rest ∧ (rest.map strip).filter counts = counted cs := by
  cases e with
  | feed => exact ⟨breakLines cs, rfl, rfl⟩
  | both => exact ⟨breakLines cs, rfl, rfl⟩
  | carriage =>
    cases cs with
    | nil => exact ⟨breakLines [], rfl, rfl⟩
    | cons c cs =>
      by_cases hc : c = '\n'
      · rw [hc]
        exact ⟨breakLines cs, rfl, rfl⟩
      · refine ⟨breakLines (c :: cs), ?_, rfl⟩
        change breakLines ('\r' :: c :: cs) = _
        rw [breakLines]
        · rfl
        · exact fun _ _ h => hc (List.cons.inj h).1

theorem counted_line {l : List Char} (hl : InLine l) (e : LineEnd) (cs : List Char) :
    counted (l ++ (e.chars ++ cs)) = [strip l].filter counts ++ counted cs := by
  obtain ⟨rest, hbreak, hrest⟩ := exists_breakLines_end e cs
  rw [counted, breakLines_append hl hbreak, List.append_nil, List.map_cons, ← List.singleton_append,
    List.filter_append, hrest]

theorem counted_last {l : List Char} (hl : InLine l) : counted l = [strip l].filter counts := by
  have hbreak : breakLines (l ++ []) = [l ++ []] := breakLines_append hl rfl
  rw [List.append_nil] at hbreak
  rw [counted, hbreak]
  rfl

namespace Line

variable {l : Line}

theorem IsWritable.inLine (h : l.IsWritable) : InLine l.chars := by
  cases l with
  | blank blanks => exact h.inLine
  | remark blanks text => exact inLine_append.2 ⟨h.1.inLine, inLine_cons.2 ⟨by decide, h.2⟩⟩
  | entry front e back =>
    exact inLine_append.2 ⟨h.1.inLine, inLine_append.2 ⟨h.2.1.inLine_written, h.2.2.inLine⟩⟩

theorem head?_strip {blanks cs : List Char} {c : Char} (hblanks : AreBlanks blanks)
    (hc : isBlank c = false) : (strip (blanks ++ c :: cs)).head? = some c := by
  have hdrop (front : List Char) : ∃ rest, (front ++ [c]).dropWhile isBlank = rest ++ [c] := by
    induction front with
    | nil => exact ⟨[], List.dropWhile_cons_of_neg (by simp [hc])⟩
    | cons d front ih =>
      by_cases hd : isBlank d
      · rw [List.cons_append, List.dropWhile_cons_of_pos hd]
        exact ih
      · exact ⟨d :: front, List.dropWhile_cons_of_neg hd⟩
  obtain ⟨rest, hrest⟩ := hdrop cs.reverse
  rw [strip, stripBy, List.dropWhile_append_of_pos hblanks.blank,
    List.dropWhile_cons_of_neg (by simp [hc]), List.reverse_cons, hrest, List.reverse_append]
  rfl

theorem IsWritable.override (h : l.IsWritable) {e : Entry} (he : l.override? = some e) :
    e.IsWritable := by
  cases l with
  | blank => cases he
  | remark => cases he
  | entry front e back =>
    cases he
    exact h.2.1

/-- Of a line that is written, the override counts. -/
theorem IsWritable.counted (h : l.IsWritable) :
    [strip l.chars].filter counts = (l.override?.map Entry.written).toList := by
  cases l with
  | blank blanks =>
    have hstrip : strip ([] ++ ([] ++ blanks)) = [] :=
      strip_surrounded nofun h.blank ⟨nofun, nofun⟩
    rw [chars, ← List.nil_append blanks, ← List.nil_append blanks, hstrip]
    rfl
  | remark blanks text =>
    have hhead : (strip (blanks ++ '#' :: text)).head? = some '#' := head?_strip h.1 (by decide)
    rw [chars, List.filter_cons_of_neg (by simp [counts, hhead])]
    rfl
  | entry front e back =>
    have hstrip : strip (front ++ (e.written ++ back)) = e.written :=
      strip_surrounded h.1.blank h.2.2.blank h.2.1.isTight_written
    rw [chars, hstrip, List.filter_cons_of_pos h.2.1.counts_written]
    rfl

end Line

/-- The lines of a file, each with its end, and what stands behind the last end. -/
structure File where
  lines : List (Line × LineEnd)
  last : Line

namespace File

variable {f : File}

def chars (f : File) : List Char :=
  f.lines.flatMap (fun l => l.1.chars ++ l.2.chars) ++ f.last.chars

def text (f : File) : String := String.ofList f.chars

/-- The overrides of a file in order. -/
def entries (f : File) : List Entry :=
  f.lines.filterMap (fun l => l.1.override?) ++ f.last.override?.toList

structure IsWritable (f : File) : Prop where
  lines : ∀ l ∈ f.lines, l.1.IsWritable
  last : f.last.IsWritable

instance (f : File) : Decidable f.IsWritable :=
  decidable_of_iff ((∀ l ∈ f.lines, l.1.IsWritable) ∧ f.last.IsWritable)
    ⟨fun ⟨hlines, hlast⟩ => ⟨hlines, hlast⟩, fun ⟨hlines, hlast⟩ => ⟨hlines, hlast⟩⟩

theorem IsWritable.override_mem (h : f.IsWritable) {e : Entry} (he : e ∈ f.entries) :
    e.IsWritable := by
  rcases List.mem_append.1 he with he | he
  · obtain ⟨l, hl, hentry⟩ := List.mem_filterMap.1 he
    exact (h.lines l hl).override hentry
  · exact h.last.override (Option.mem_toList.1 he)

theorem counted_lines {ls : List (Line × LineEnd)} (h : ∀ l ∈ ls, l.1.IsWritable)
    (cs : List Char) : counted (ls.flatMap (fun l => l.1.chars ++ l.2.chars) ++ cs) =
      (ls.filterMap fun l => l.1.override?).map Entry.written ++ counted cs := by
  induction ls with
  | nil => rfl
  | cons l ls ih =>
    have hl := h l List.mem_cons_self
    rw [List.flatMap_cons, List.append_assoc, List.append_assoc, counted_line hl.inLine,
      ih fun l' hl' => h l' (List.mem_cons_of_mem l hl'), hl.counted, List.filterMap_cons]
    cases l.1.override? with
    | none => rfl
    | some e => rfl

theorem IsWritable.ofLines_text (h : f.IsWritable) : ofLines f.text = f.entries.map Entry.item := by
  rw [ofLines_eq, text, String.toList_ofList, chars, counted_lines h.lines,
    counted_last h.last.inLine, h.last.counted, entries,
    List.map_append, List.map_append, List.map_map]
  cases f.last.override? with
  | none => rfl
  | some e => rfl

end File

end BlockStep.Override

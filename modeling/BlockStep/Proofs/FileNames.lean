import BlockStep.Snapshot.Archive

namespace BlockStep

namespace Text

theorem toDigits_injective {m n : Nat} (h : Nat.toDigits 10 m = Nat.toDigits 10 n) : m = n := by
  have hvalue := congrArg (fun ds => Nat.ofDigitChars 10 ds 0) h
  simpa only [Nat.ofDigitChars_ten_toDigits] using hvalue

theorem isDigit_of_mem_toDigits {n : Nat} {c : Char} (h : c ∈ Nat.toDigits 10 n) : c.isDigit :=
  Nat.isDigit_of_mem_toDigits (by decide) (by decide) h

/-- Zeros and the digits of a number. -/
def filled (k n : Nat) : List Char := List.replicate k '0' ++ Nat.toDigits 10 n

theorem isDigit_of_mem_filled {k n : Nat} {c : Char} (h : c ∈ filled k n) : c.isDigit := by
  rcases List.mem_append.1 h with h | h
  · rw [List.eq_of_mem_replicate h]
    rfl
  · exact isDigit_of_mem_toDigits h

theorem ofDigitChars_filled (k n : Nat) : Nat.ofDigitChars 10 (filled k n) 0 = n := by
  rw [filled, Nat.ofDigitChars_append, Nat.ofDigitChars_replicate_zero, Nat.mul_zero,
    Nat.ofDigitChars_ten_toDigits]

def signOf (i : Int) : List Char := if i < 0 then ['-'] else []

theorem exists_padded (width : Nat) (i : Int) :
    ∃ k, (padded width i).toList = signOf i ++ filled k i.natAbs := by
  have hsign : (if i < 0 then "-" else "").toList = signOf i := by
    rw [signOf]
    split <;> rfl
  simp only [padded, String.toList_append, String.toList_ofList, hsign, List.append_assoc,
    Nat.toString_eq_ofList_toDigits]
  exact ⟨_, rfl⟩

theorem mem_padded {width : Nat} {i : Int} {c : Char} (h : c ∈ (padded width i).toList) :
    c.isDigit ∨ c = '-' := by
  obtain ⟨k, hi⟩ := exists_padded width i
  rw [hi, List.mem_append, signOf] at h
  rcases h with h | h
  · split at h
    · exact .inr (List.mem_singleton.1 h)
    · cases h
  · exact .inl (isDigit_of_mem_filled h)

theorem neg_iff_mem_padded (width : Nat) (i : Int) : i < 0 ↔ '-' ∈ (padded width i).toList := by
  obtain ⟨k, hi⟩ := exists_padded width i
  have hdigits : '-' ∉ filled k i.natAbs := fun h => absurd (isDigit_of_mem_filled h) (by decide)
  rw [hi, signOf]
  split
  next hneg => exact iff_of_true hneg (List.mem_cons_self ..)
  next hneg => exact iff_of_false hneg hdigits

theorem padded_injective {width : Nat} {i j : Int}
    (h : (padded width i).toList = (padded width j).toList) : i = j := by
  have hsign : i < 0 ↔ j < 0 := by
    rw [neg_iff_mem_padded width i, neg_iff_mem_padded width j, h]
  obtain ⟨k, hi⟩ := exists_padded width i
  obtain ⟨l, hj⟩ := exists_padded width j
  have hsame : signOf i = signOf j := by
    rw [signOf, signOf]
    simp only [hsign]
  rw [hi, hj, hsame] at h
  have habs := congrArg (fun ds => Nat.ofDigitChars 10 ds 0) (List.append_cancel_left h)
  simp only [ofDigitChars_filled] at habs
  omega

namespace Path

theorem exists_join (directory : String) : ∃ front : List Char,
    (front = [] ∨ ∃ f, front = f ++ ['/']) ∧
      ∀ name, (join directory name).toList = front ++ name.toList := by
  by_cases hdot : directory == "."
  · exact ⟨[], .inl rfl, fun name => by rw [join, if_pos hdot, List.nil_append]⟩
  by_cases hslash : directory.endsWith "/"
  · obtain ⟨f, hf⟩ := String.Slice.endsWith_string_iff.1 hslash
    have hdirectory : directory.toList = f ++ ['/'] := by simpa using hf.symm
    refine ⟨directory.toList, .inr ⟨f, hdirectory⟩, fun name => ?_⟩
    rw [join, if_neg hdot, if_pos hslash, String.toList_append]
  · refine ⟨directory.toList ++ ['/'], .inr ⟨_, rfl⟩, fun name => ?_⟩
    rw [join, if_neg hdot, if_neg hslash, String.toList_append, String.toList_append]
    rfl

theorem join_injective {directory name other : String}
    (h : join directory name = join directory other) : name = other := by
  obtain ⟨front, -, hjoin⟩ := exists_join directory
  have hlist := congrArg String.toList h
  rw [hjoin, hjoin] at hlist
  exact String.toList_inj.1 (List.append_cancel_left hlist)

theorem parts_of_not_mem {cs : List Char} (h : '/' ∉ cs) (hne : cs ≠ []) (hdot : cs ≠ ['.']) :
    parts cs = [cs] := by
  rw [parts, List.splitOn_eq_singleton h]
  simp [hne, hdot]

theorem name_join {directory n : String} (h : '/' ∉ n.toList) (hne : n.toList ≠ [])
    (hdot : n.toList ≠ ['.']) : name (join directory n) = n := by
  obtain ⟨front, hfront, hjoin⟩ := exists_join directory
  have hlast : (parts (front ++ n.toList)).getLastD [] = n.toList := by
    rcases hfront with rfl | ⟨f, rfl⟩
    · rw [List.nil_append, parts_of_not_mem h hne hdot]
      rfl
    · have hparts := parts_of_not_mem h hne hdot
      rw [parts, List.splitOn_eq_singleton h] at hparts
      rw [List.append_assoc, List.singleton_append, parts, List.splitOn_append_cons_self,
        List.filter_append, List.splitOn_eq_singleton h, hparts]
      simp
  rw [name, hjoin, hlast, String.ofList_toList]

theorem ending_of_toList {n : String} {front back : List Char}
    (hn : n.toList = front ++ '.' :: back)
    (hfront : front ≠ []) (hback : back ≠ []) (hpoint : '.' ∉ back) :
    ending n = String.ofList ('.' :: back) := by
  have hall : ∀ c ∈ back.reverse, (c != '.') = true := by
    intro c hc
    rw [List.mem_reverse] at hc
    simp only [bne_iff_ne]
    rintro rfl
    exact hpoint hc
  have hreverse : n.toList.reverse = back.reverse ++ '.' :: front.reverse := by
    rw [hn, List.reverse_append, List.reverse_cons, List.append_assoc]
    rfl
  rw [ending, hreverse, List.takeWhile_append_of_pos hall, List.dropWhile_append_of_pos hall]
  simp [hfront, hback]

end Path

end Text

namespace SnapshotWriter

def ofRank (directory : String) (format : SnapshotFormat) (rank : Nat) : SnapshotWriter :=
  ⟨directory, format, rank⟩

theorem toList_rankMark (rank : Nat) : (rankMark rank).toList =
    if rank = 0 then [] else ['.', 'r', 'a', 'n', 'k'] ++ Nat.toDigits 10 rank := by
  rw [rankMark]
  by_cases h : rank = 0
  · rw [h]
    rfl
  · rw [if_neg (by omega), if_neg h, String.toList_append]
    exact congrArg _ Nat.toList_repr

theorem rankMark_injective {rank rank' : Nat}
    (h : (rankMark rank).toList = (rankMark rank').toList) : rank = rank' := by
  rw [toList_rankMark, toList_rankMark] at h
  split at h
  next hzero =>
    split at h
    next hzero' => rw [hzero, hzero']
    next => cases h
  next =>
    split at h
    next => cases h
    next => exact Text.toDigits_injective (List.append_cancel_left h)

theorem exists_marks (rank : Nat) (format : SnapshotFormat) :
    ∃ back, (rankMark rank).toList ++ format.ending.toList = '.' :: back := by
  rw [toList_rankMark]
  split
  · cases format <;> exact ⟨_, rfl⟩
  · exact ⟨_, rfl⟩

theorem toList_fileName (directory : String) (format : SnapshotFormat) (rank : Nat) (id : Int) :
    ((ofRank directory format rank).fileName id).toList =
      "snapshot_".toList ++ ((Text.padded 6 id).toList ++
        ((rankMark rank).toList ++ format.ending.toList)) := by
  simp only [ofRank, fileName, String.toList_append, List.append_assoc]

theorem ne_of_mem_padded {id : Int} {c : Char} (h : c ∈ (Text.padded 6 id).toList) :
    c ≠ '.' ∧ c ≠ '/' := by
  constructor
  · rintro rfl
    exact absurd (Text.mem_padded h) (by decide)
  · rintro rfl
    exact absurd (Text.mem_padded h) (by decide)

theorem not_slash_mem_rankMark {rank : Nat} : '/' ∉ (rankMark rank).toList := by
  intro h
  rw [toList_rankMark] at h
  split at h
  · cases h
  · rcases List.mem_append.1 h with h | h
    · exact absurd h (by decide)
    · exact absurd (Text.isDigit_of_mem_toDigits h) (by decide)

theorem not_slash_mem_fileName (directory : String) (format : SnapshotFormat) (rank : Nat)
    (id : Int) : '/' ∉ ((ofRank directory format rank).fileName id).toList := by
  rw [toList_fileName]
  intro h
  rcases List.mem_append.1 h with h | h
  · exact absurd h (by decide)
  rcases List.mem_append.1 h with h | h
  · exact (ne_of_mem_padded h).2 rfl
  rcases List.mem_append.1 h with h | h
  · exact not_slash_mem_rankMark h
  · cases format <;> exact absurd h (by decide)

theorem takeWhile_point {front back : List Char} (h : ∀ c ∈ front, c ≠ '.') :
    (front ++ '.' :: back).takeWhile (· != '.') = front := by
  rw [List.takeWhile_append_of_pos (by simpa using h)]
  simp

theorem fileName_injective {directory : String} {format : SnapshotFormat} {rank rank' : Nat}
    {id id' : Int} (h : (ofRank directory format rank).fileName id =
      (ofRank directory format rank').fileName id') : rank = rank' ∧ id = id' := by
  have hlist := congrArg String.toList h
  rw [toList_fileName, toList_fileName] at hlist
  have hrest := List.append_cancel_left hlist
  obtain ⟨back, hback⟩ := exists_marks rank format
  obtain ⟨back', hback'⟩ := exists_marks rank' format
  have hnumber : (Text.padded 6 id).toList = (Text.padded 6 id').toList := by
    have htake := congrArg (List.takeWhile (· != '.')) hrest
    rw [hback, hback'] at htake
    rwa [takeWhile_point fun c hc => (ne_of_mem_padded hc).1,
      takeWhile_point fun c hc => (ne_of_mem_padded hc).1] at htake
  rw [hnumber] at hrest
  have hmark := List.append_cancel_right (List.append_cancel_left hrest)
  exact ⟨rankMark_injective hmark, Text.padded_injective hnumber⟩

theorem path_injective {directory : String} {format : SnapshotFormat} {rank rank' : Nat}
    {id id' : Int} (h : (ofRank directory format rank).path id =
      (ofRank directory format rank').path id') : rank = rank' ∧ id = id' :=
  fileName_injective (Text.Path.join_injective h)

theorem ending_fileName (directory : String) (format : SnapshotFormat) (rank : Nat) (id : Int) :
    Text.Path.ending ((ofRank directory format rank).fileName id) = format.ending := by
  obtain ⟨back, hending, hne, hpoint⟩ : ∃ back, format.ending.toList = '.' :: back ∧ back ≠ [] ∧
      '.' ∉ back := by
    cases format
    · exact ⟨['p', 'k', 'l'], rfl, by decide, by decide⟩
    · exact ⟨['j', 's', 'o', 'n'], rfl, by decide, by decide⟩
  have hname := toList_fileName directory format rank id
  rw [hending, ← List.append_assoc, ← List.append_assoc] at hname
  rw [Text.Path.ending_of_toList hname (by simp) hne hpoint, ← hending, String.ofList_toList]

theorem ofPath_path (directory : String) (format : SnapshotFormat) (rank : Nat) (id : Int) :
    SnapshotFormat.ofPath ((ofRank directory format rank).path id) = format := by
  have hname := toList_fileName directory format rank id
  have hne : ((ofRank directory format rank).fileName id).toList ≠ [] := by
    rw [hname]
    nofun
  have hdot : ((ofRank directory format rank).fileName id).toList ≠ ['.'] := by
    rw [hname]
    nofun
  have hslash := not_slash_mem_fileName directory format rank id
  rw [SnapshotFormat.ofPath, path, Text.Path.name_join hslash hne hdot, ending_fileName]
  cases format <;> decide +kernel

end SnapshotWriter

end BlockStep

/-
The byte offsets of lines. The offset of a line is the number of bytes in front of it, so
the slice between two offsets is a line with its newline, whatever number of bytes the
characters have. Main statement: an index knows the lines of the text that was set last.
-/
import MiniLang.Proofs.Source.Split
import MiniLang.Source.LineIndex
import Mathlib.Data.String.Basic

namespace MiniLang

open String (utf8Len)

theorem length_offsetsBehindNewlines (offset : Nat) (text : List Char) :
    (offsetsBehindNewlines offset text).length = text.count '\n' := by
  induction text generalizing offset with
  | nil => rfl
  | cons c rest ih =>
      rw [offsetsBehindNewlines]
      by_cases hc : c = '\n'
      · rw [if_pos hc, List.length_cons, ih, hc, List.count_cons_self]
      · rw [if_neg hc, ih, List.count_cons_of_ne hc]

/-- The offset behind a newline counts the bytes up to it and the newline itself. -/
theorem getElem?_offsetsBehindNewlines (offset : Nat) (front behind : List Char) :
    (offsetsBehindNewlines offset (front ++ '\n' :: behind))[front.count '\n']? =
      some (offset + utf8Len (front ++ ['\n'])) := by
  induction front generalizing offset with
  | nil => rfl
  | cons c rest ih =>
      have hlength : utf8Len (c :: rest ++ ['\n']) =
          c.utf8Size + utf8Len (rest ++ ['\n']) := by
        rw [List.cons_append, String.utf8Len_cons, Nat.add_comm]
      rw [List.cons_append, offsetsBehindNewlines, hlength, ← Nat.add_assoc]
      by_cases hc : c = '\n'
      · rw [if_pos hc, hc, List.count_cons_self, List.getElem?_cons_succ]
        exact ih _
      · rw [if_neg hc, List.count_cons_of_ne hc]
        exact ih _

/-- The stretch of bytes that a slice behind `front` takes up. -/
def ByteRange.between (front slice : List Char) : ByteRange :=
  ⟨⟨utf8Len front⟩, ⟨utf8Len (front ++ slice)⟩⟩

/-- Whether both ends of a stretch of bytes are in a text, in front of a character or at
the end, and in order. -/
structure ByteRange.Fits (range : ByteRange) (text : String) : Prop where
  ordered : range.start ≤ range.stop
  start : range.start.IsValid text
  stop : range.stop.IsValid text

theorem ByteRange.fits_iff {range : ByteRange} {text : String} :
    range.fits text = true ↔ range.Fits text := by
  simp only [ByteRange.fits, Bool.and_eq_true, decide_eq_true_eq,
    String.Pos.Raw.isValid_eq_true_iff]
  constructor
  · rintro ⟨⟨hordered, hstart⟩, hstop⟩
    exact ⟨hordered, hstart, hstop⟩
  · rintro ⟨hordered, hstart, hstop⟩
    exact ⟨⟨hordered, hstart⟩, hstop⟩

section Slices

variable {index : LineIndex} {front slice rest : List Char}

theorem isValid_utf8Len {text : String} (h : text.toList = front ++ rest) :
    String.Pos.Raw.IsValid text ⟨utf8Len front⟩ := by
  rw [String.Pos.Raw.isValid_iff_exists_append]
  refine ⟨String.ofList front, String.ofList rest, ?_, ?_⟩
  · rw [← String.ofList_append, ← h, String.ofList_toList]
  · rw [String.Pos.Raw.ext_iff, String.byteIdx_rawEndPos, ← String.utf8Len_toList,
      String.toList_ofList]

theorem ByteRange.fits_between {text : String}
    (h : text.toList = front ++ (slice ++ rest)) :
    (ByteRange.between front slice).Fits text where
  ordered := by
    rw [ByteRange.between, String.Pos.Raw.le_iff, String.utf8Len_append]
    exact Nat.le_add_right _ _
  start := isValid_utf8Len h
  stop := isValid_utf8Len (h.trans (List.append_assoc front slice rest).symm)

/-- The slice behind some characters is made up of the characters that follow them. -/
theorem LineIndex.slice?_between (h : index.text.toList = front ++ (slice ++ rest)) :
    index.slice? (.between front slice) = some (String.ofList slice) := by
  have hfits := ByteRange.fits_iff.mpr (ByteRange.fits_between h)
  have hextract := String.extract_of_valid front slice rest
  rw [List.append_assoc, ← h, String.ofList_toList, ← String.utf8Len_append] at hextract
  rw [LineIndex.slice?, if_pos hfits]
  exact congrArg some hextract

end Slices

/-- What a row of numbers gives if every number gives what is at its place in a list. -/
theorem filterMap_range' {α β : Type} {give : Nat → Option β} {shape : α → β} {start : Nat}
    {items : List α} (h : ∀ n, give (start + n) = items[n]?.map shape) :
    (List.range' start items.length).filterMap give = items.map shape := by
  induction items generalizing start with
  | nil => rfl
  | cons item rest ih =>
      have hfirst : give start = some (shape item) := h 0
      have hrest : ∀ n, give (start + 1 + n) = rest[n]?.map shape := by
        intro n
        rw [Nat.add_assoc, Nat.add_comm 1 n]
        exact h (n + 1)
      rw [List.length_cons, List.range'_succ, List.filterMap_cons_some hfirst, ih hrest,
        List.map_cons]

section Lines

variable (index : LineIndex) {text : String} {number : Nat}

theorem LineIndex.lineCount_setText (text : String) :
    (index.setText text).lineCount = text.toList.count '\n' + 1 :=
  congrArg (· + 1) (length_offsetsBehindNewlines 0 text.toList)

/-- A line with the newline behind it, if there is one. -/
def LinePlace.slice {text : List Char} (place : LinePlace text number) : List Char :=
  place.line ++ place.behind.take 1

theorem LinePlace.whole_slice {text : List Char} (place : LinePlace text number) :
    text = place.front ++ (place.slice ++ place.behind.drop 1) := by
  rw [LinePlace.slice, List.append_assoc, List.take_append_drop]
  exact place.whole

variable (place : LinePlace text.toList number)

theorem LinePlace.start :
    (index.setText text).starts[number]? = some (utf8Len place.front) := by
  rcases place.begins with hnone | ⟨more, hmore⟩
  · have hnumber := place.above
    rw [hnone, List.count_nil] at hnumber
    rw [hnone, ← hnumber]
    rfl
  · have hwhole : text.toList = more ++ '\n' :: (place.line ++ place.behind) := by
      conv_lhs => rw [place.whole, hmore, List.append_assoc, List.singleton_append]
    have hnumber : more.count '\n' + 1 = number := by
      rw [← place.above, hmore, List.count_append]
      rfl
    have hoffset := getElem?_offsetsBehindNewlines 0 more (place.line ++ place.behind)
    rw [← hwhole, Nat.zero_add] at hoffset
    rw [hmore, ← hnumber]
    exact hoffset

/-- A line ends where the next one starts, and the last one where the text ends. -/
theorem LinePlace.stop :
    (index.setText text).starts[number + 1]?.getD text.utf8ByteSize =
      utf8Len (place.front ++ place.slice) := by
  have hcount := place.count_eq
  change (offsetsBehindNewlines 0 text.toList)[number]?.getD text.utf8ByteSize = _
  rcases place.ends.cases with hnone | ⟨more, hmore⟩
  · have hwhole := place.whole_slice
    rw [hnone, List.drop_nil, List.append_nil] at hwhole
    rw [hnone, List.count_nil, Nat.add_zero] at hcount
    have hpast : (offsetsBehindNewlines 0 text.toList).length ≤ number := by
      rw [length_offsetsBehindNewlines]
      exact Nat.le_of_eq hcount
    rw [List.getElem?_eq_none hpast, Option.getD_none, ← hwhole, String.utf8Len_toList]
  · have hwhole : text.toList = (place.front ++ place.line) ++ '\n' :: more := by
      rw [List.append_assoc, ← hmore]
      exact place.whole
    have hnumber : (place.front ++ place.line).count '\n' = number := by
      rw [List.count_append, place.above, List.count_eq_zero.mpr place.single]
      rfl
    have hoffset := getElem?_offsetsBehindNewlines 0 (place.front ++ place.line) more
    rw [← hwhole, hnumber, Nat.zero_add] at hoffset
    rw [hoffset, Option.getD_some, LinePlace.slice, hmore, List.append_assoc]
    rfl

theorem LinePlace.range? : (index.setText text).range? (number + 1) =
    some (.between place.front place.slice) := by
  rw [LineIndex.range?, place.start index, Option.map_some]
  exact congrArg (fun stop => some (ByteRange.mk ⟨utf8Len place.front⟩ ⟨stop⟩))
    (place.stop index)

/-- The newline is the only character of a slice that no line holds. -/
theorem LinePlace.trim_slice {text : List Char} (place : LinePlace text number) :
    dropRightWhile (fun c => c == '\n' || c == '\r') place.slice =
      dropRightWhile (· == '\r') place.line := by
  have hline : dropRightWhile (fun c => c == '\n' || c == '\r') place.line =
      dropRightWhile (· == '\r') place.line := by
    refine dropRightWhile_congr fun c hc => ?_
    have hne : c ≠ '\n' := fun hsame => place.single (hsame ▸ hc)
    rw [beq_eq_false_iff_ne.mpr hne, Bool.false_or]
  rcases place.ends.cases with hnone | ⟨more, hmore⟩
  · rw [LinePlace.slice, hnone, List.take_nil, List.append_nil, hline]
  · rw [LinePlace.slice, hmore, ← hline, dropRightWhile, List.take_succ_cons,
      List.take_zero, List.reverse_append]
    rfl

theorem LinePlace.line? : (index.setText text).line? (number + 1) =
    some (dropRightWhile (· == '\r') place.line) := by
  have hslice : (index.setText text).slice? (.between place.front place.slice) =
      some (String.ofList place.slice) := LineIndex.slice?_between place.whole_slice
  simp only [LineIndex.line?, place.range? index, hslice, Option.bind_eq_bind,
    Option.bind_some, String.toList_ofList, place.trim_slice]
  rfl

/-- No line has a number past the number of lines. -/
theorem LineIndex.range?_eq_none (h : text.toList.count '\n' < number) :
    (index.setText text).range? (number + 1) = none := by
  have hlength : (index.setText text).starts.length ≤ number := by
    have hcount := index.lineCount_setText text
    rw [LineIndex.lineCount] at hcount
    omega
  rw [LineIndex.range?, List.getElem?_eq_none hlength]
  rfl

/-- The lines of an index are those of the text, without carriage returns at their
ends. -/
theorem LineIndex.line?_setText (text : String) (number : Nat) :
    (index.setText text).line? (number + 1) =
      (text.toList.splitOn '\n')[number]?.map (dropRightWhile (· == '\r')) := by
  by_cases h : number ≤ text.toList.count '\n'
  · obtain ⟨place⟩ := exists_linePlace h
    rw [place.line? index, place.getElem?_splitOn, Option.map_some]
  · have hpast : (text.toList.splitOn '\n').length ≤ number := by
      rw [length_splitOn_newline]
      omega
    rw [LineIndex.line?, index.range?_eq_none (Nat.lt_of_not_le h),
      List.getElem?_eq_none hpast]
    rfl

theorem LineIndex.line?_eq_none_iff (text : String) (number : Nat) :
    (index.setText text).line? number = none ↔
      number = 0 ∨ (index.setText text).lineCount < number := by
  cases number with
  | zero => exact iff_of_true rfl (.inl rfl)
  | succ n =>
      rw [index.line?_setText, Option.map_eq_none_iff, List.getElem?_eq_none_iff,
        length_splitOn_newline, index.lineCount_setText]
      omega

/-- All lines in a row, by their numbers. -/
theorem LineIndex.filterMap_line? (text : String) :
    (List.range' 1 (index.setText text).lineCount).filterMap (index.setText text).line? =
      (text.toList.splitOn '\n').map (dropRightWhile (· == '\r')) := by
  rw [index.lineCount_setText, ← length_splitOn_newline]
  refine filterMap_range' fun number => ?_
  rw [Nat.add_comm]
  exact index.line?_setText text number

/-- Where a line is found, its slice fits the text. -/
theorem LineIndex.fits_of_range? {range : ByteRange}
    (h : (index.setText text).range? number = some range) : range.Fits text := by
  cases number with
  | zero => cases h
  | succ n =>
      by_cases hn : n ≤ text.toList.count '\n'
      · obtain ⟨place⟩ := exists_linePlace hn
        rw [place.range? index] at h
        obtain rfl := Option.some.inj h
        exact ByteRange.fits_between place.whole_slice
      · rw [index.range?_eq_none (Nat.lt_of_not_le hn)] at h
        cases h

/-- A text without carriage returns is its lines with newlines between them. -/
theorem LineIndex.intercalate_lines (h : '\r' ∉ text.toList) :
    ['\n'].intercalate ((List.range' 1 (index.setText text).lineCount).filterMap
      (index.setText text).line?) = text.toList := by
  have hwhole : ∀ line ∈ text.toList.splitOn '\n',
      dropRightWhile (· == '\r') line = line := by
    intro line hline
    refine List.rdropWhile_eq_self_iff.mpr fun hne hlast => ?_
    have hmem := subset_of_mem_splitOn hline (List.getLast_mem hne)
    rw [beq_iff_eq.mp hlast] at hmem
    exact h hmem
  rw [index.filterMap_line?, List.map_congr_left hwhole, List.map_id',
    List.intercalate_splitOn]

end Lines

/-- Whether an index knows the lines of a text: how many there are, which characters each
of them has, and where in the text it is. -/
structure LineIndex.Knows (index : LineIndex) (text : String) : Prop where
  holds : index.text = text
  count : index.lineCount = text.toList.count '\n' + 1
  missing : ∀ number, index.line? number = none ↔
    number = 0 ∨ index.lineCount < number
  fits : ∀ number range, index.range? number = some range → range.Fits text
  line : ∀ number, index.line? (number + 1) =
    (text.toList.splitOn '\n')[number]?.map (dropRightWhile (· == '\r'))
  joined : '\r' ∉ text.toList → ['\n'].intercalate
    ((List.range' 1 index.lineCount).filterMap index.line?) = text.toList

/-- An index knows the lines of the text that was set last, whatever texts were set
before. -/
theorem LineIndex.knows_lines (index : LineIndex) (earlier : List String)
    (text : String) :
    ((earlier ++ [text]).foldl LineIndex.setText index).Knows text := by
  rw [List.foldl_append, List.foldl_cons, List.foldl_nil]
  generalize earlier.foldl LineIndex.setText index = last
  exact {
    holds := rfl
    count := last.lineCount_setText text
    missing := last.line?_eq_none_iff text
    fits := fun _ _ => last.fits_of_range?
    line := last.line?_setText text
    joined := last.intercalate_lines }

end MiniLang

/-
Where the first caret of an issue of the scan stands. The scanner skips four separators; an
excerpt is shown without all white space at the start of its line. Main statement: the first
caret stands below the character where the issue starts, unless that character is white
space that the scanner does not know, with nothing but white space in front of it. The
character is then not shown, and the caret stands below whatever is shown first.
-/
import MiniLang.Proofs.Source.Lines

namespace MiniLang

/-- How far the first caret of an excerpt is moved in, behind the margin of four columns. -/
def caretIndent (excerpt : String) : Nat :=
  (((lastLine excerpt.toList).drop 4).takeWhile (· == ' ')).length

/-- How many characters at its start a line is shown without. -/
def cutLeft (line : List Char) : Nat := line.length - (trimLeft line).length

/-- Whether the first caret of an excerpt stands below the character where the stretch
starts: it is moved in by the columns in front of that, less those that are not shown. -/
def Document.PointsTo (doc : Document) (span : Span) : Prop :=
  ∃ line, doc.line? span.start.line = some line ∧
    caretIndent (doc.excerpt span) + cutLeft line = span.start.column - 1

/-- Whether an issue is about an illegal character that is white space and has nothing but
white space in front of it in its line. -/
def Document.Hides (doc : Document) (issue : ScanIssue) : Prop :=
  ∃ line c, doc.line? issue.span.start.line = some line ∧ issue.fault = .illegal c ∧
    isBlank c = true ∧ ∀ d ∈ line.take (issue.span.start.column - 1), isBlank d = true

section Trimming

theorem cutLeft_eq (line : List Char) : cutLeft line = (line.takeWhile isBlank).length := by
  have hlength : (line.takeWhile isBlank).length + (trimLeft line).length = line.length := by
    rw [← List.length_append, trimLeft, List.takeWhile_append_dropWhile]
  unfold cutLeft
  omega

theorem trimLeft_eq_drop (line : List Char) : trimLeft line = line.drop (cutLeft line) := by
  have hline : line.takeWhile isBlank ++ trimLeft line = line :=
    List.takeWhile_append_dropWhile
  calc trimLeft line
      = (line.takeWhile isBlank ++ trimLeft line).drop (line.takeWhile isBlank).length :=
        List.drop_left.symm
    _ = line.drop (cutLeft line) := by rw [hline, cutLeft_eq]

/-- A character is cut off with the line in front of it, or not at all. -/
theorem cutLeft_le_iff (before : List Char) (c : Char) (behind : List Char) :
    cutLeft (before ++ c :: behind) ≤ before.length ↔
      ¬ (isBlank c = true ∧ ∀ d ∈ before, isBlank d = true) := by
  rw [cutLeft_eq, not_and']
  by_cases hbefore : ∀ d ∈ before, isBlank d = true
  · rw [List.takeWhile_append_of_pos hbefore, List.length_append, imp_iff_right hbefore]
    by_cases hc : isBlank c = true
    · rw [List.takeWhile_cons_of_pos hc, List.length_cons]
      exact iff_of_false (by omega) (not_not_intro hc)
    · rw [List.takeWhile_cons_of_neg hc]
      exact iff_of_true (Nat.le_refl _) hc
  · have hshort : (before.takeWhile isBlank).length ≠ before.length := by
      intro hlength
      have hall := (List.takeWhile_prefix isBlank).eq_of_length hlength
      exact hbefore (List.takeWhile_eq_self_iff.mp hall)
    rw [List.takeWhile_append, if_neg hshort]
    exact iff_of_true (List.takeWhile_prefix isBlank).length_le (fun h => absurd h hbefore)

theorem Span.width_pos (span : Span) : 0 < span.width := by
  unfold Span.width
  split
  · exact Nat.succ_pos _
  · exact Nat.one_pos

/-- The first caret is moved in by what is left of the columns in front of the stretch. -/
theorem caretIndent_excerptOfLine (line : List Char) (span : Span) :
    caretIndent (excerptOfLine line span) = span.start.column - 1 - cutLeft line := by
  have hspaces (count : Nat) : ∀ c ∈ List.replicate count ' ', (c == ' ') = true := by
    intro c hc
    rw [List.eq_of_mem_replicate hc]
    rfl
  have hcarets : (List.replicate span.width '^').takeWhile (· == ' ') = [] := by
    obtain ⟨more, hmore⟩ := Nat.exists_eq_succ_of_ne_zero span.width_pos.ne'
    rw [hmore]
    rfl
  have hmargin : "    ".toList = List.replicate 4 ' ' := rfl
  have hbreak : "\n    ".toList = '\n' :: List.replicate 4 ' ' := rfl
  have hlast (offset : Nat) : '\n' ∉ List.replicate 4 ' ' ++
      (List.replicate offset ' ' ++ List.replicate span.width '^') := by
    simp [List.mem_replicate]
  have hexcerpt : (excerptOfLine line span).toList =
      (List.replicate 4 ' ' ++ trimRight (trimLeft line)) ++ '\n' ::
        (List.replicate 4 ' ' ++ (List.replicate (span.start.column - 1 - cutLeft line) ' '
          ++ List.replicate span.width '^')) := by
    unfold excerptOfLine
    rw [String.toList_ofList, hmargin, hbreak]
    simp only [List.append_assoc, List.cons_append]
    rfl
  rw [caretIndent, hexcerpt, lastLine_append_newline _ (hlast _),
    List.drop_left' List.length_replicate, List.takeWhile_append_of_pos (hspaces _), hcarets,
    List.append_nil, List.length_replicate]

end Trimming

/-- How an issue starts in a line of a document: the character in its column is an illegal
one that the issue is about, or no white space. -/
structure Document.Beginning (doc : Document) (issue : ScanIssue) where
  before : List Char
  first : Char
  behind : List Char
  line : doc.line? issue.span.start.line = some (before ++ first :: behind)
  column : issue.span.start.column = before.length + 1
  blank : isBlank first = true → issue.fault = .illegal first
  illegal : ∀ c, issue.fault = .illegal c → c = first

section Issues

variable {doc : Document} {issue : ScanIssue}

/-- What an issue is about starts with a character that no line loses at its end. -/
theorem Fits.exists_first {kind : PieceKind} {text behind : List Char}
    (h : Fits kind text behind) {fault : ScanFault} (hfault : kind.fault? = some fault) :
    ∃ first rest, text = first :: rest ∧ first ≠ '\r' ∧
      (isBlank first = true → fault = .illegal first) ∧
        ∀ c, fault = .illegal c → c = first := by
  cases h with
  | blank _ => cases hfault
  | hash _ _ => cases hfault
  | slashes _ _ => cases hfault
  | token _ => cases hfault
  | clamped hne hdigits _ =>
      obtain ⟨first, rest, rfl⟩ := List.exists_cons_of_ne_nil hne
      have hdigit := hdigits first List.mem_cons_self
      obtain rfl := Option.some.inj hfault
      refine ⟨first, rest, rfl, ?_, ?_, nofun⟩
      · rintro rfl
        exact absurd hdigit (by decide)
      · intro hblank
        rw [not_isBlank_of_isWordPart (isWordPart_of_isDigit hdigit)] at hblank
        cases hblank
  | @illegal c behind hnothing =>
      obtain rfl := Option.some.inj hfault
      refine ⟨c, [], rfl, ?_, fun _ => rfl, fun d hd => (ScanFault.illegal.inj hd).symm⟩
      rintro rfl
      exact absurd hnothing.separator (by decide)
  | @badEscape body _ _ =>
      obtain rfl := Option.some.inj hfault
      exact ⟨'"', body ++ ['"'], rfl, by decide, fun h => absurd h (by decide), nofun⟩
  | @unterminated body _ _ _ _ =>
      obtain rfl := Option.some.inj hfault
      exact ⟨'"', body, rfl, by decide, fun h => absurd h (by decide), nofun⟩
  | @backslash body _ _ _ _ =>
      obtain rfl := Option.some.inj hfault
      exact ⟨'"', body ++ ['\\'], rfl, by decide, fun h => absurd h (by decide), nofun⟩

/-- Every issue starts in a line of the document. -/
theorem Document.exists_beginning (h : issue ∈ (scan doc.text).issues) :
    Nonempty (doc.Beginning issue) := by
  have haccounts := accounts_scan doc.text
  rw [haccounts.issues] at h
  obtain ⟨stretch, hstretch, hissue⟩ := List.mem_filterMap.mp h
  obtain ⟨behind, hsplit, hfits⟩ := haccounts.divided.mem_split stretch hstretch
  rw [← Stretch.issue?_placed hfits] at hissue
  obtain ⟨fault, hfault, rfl⟩ := Option.map_eq_some_iff.mp hissue
  obtain ⟨first, rest, htext, hreturn, hblank, hillegal⟩ := hfits.exists_first hfault
  have hnewline : first ≠ '\n' := by
    rintro rfl
    have hkind : stretch.kind ≠ .blank := by
      intro hkind
      rw [Stretch.placed, hkind] at hfault
      cases hfault
    exact hfits.newline_notMem hkind (htext ▸ List.mem_cons_self)
  have hline := doc.line?_placeBehind hsplit
  have hleft : firstLine (stretch.text ++ behind) = first :: firstLine (rest ++ behind) := by
    rw [htext, List.cons_append, firstLine,
      List.takeWhile_cons_of_pos (by simpa using hnewline)]
    rfl
  rw [hleft, dropRightWhile_append_cons (by simpa using hreturn)] at hline
  exact ⟨{
    before := lastLine stretch.before
    first
    behind := dropRightWhile (· == '\r') (firstLine (rest ++ behind))
    line := hline
    column := column_placeBehind stretch.before
    blank := hblank
    illegal := hillegal }⟩

namespace Document.Beginning

variable (start : doc.Beginning issue)

theorem caretIndent_excerpt : caretIndent (doc.excerpt issue.span) =
    start.before.length - cutLeft (start.before ++ start.first :: start.behind) := by
  have hexcerpt : doc.excerpt issue.span =
      excerptOfLine (start.before ++ start.first :: start.behind) issue.span := by
    rw [Document.excerpt, start.line]
  rw [hexcerpt, caretIndent_excerptOfLine, start.column, Nat.add_sub_cancel]

theorem take_line : (start.before ++ start.first :: start.behind).take
    (issue.span.start.column - 1) = start.before := by
  rw [start.column, Nat.add_sub_cancel, List.take_left]

theorem hides_iff : doc.Hides issue ↔
    isBlank start.first = true ∧ ∀ d ∈ start.before, isBlank d = true := by
  constructor
  · rintro ⟨line, c, hline, hfault, hblank, hbefore⟩
    obtain rfl := Option.some.inj (start.line.symm.trans hline)
    obtain rfl := start.illegal c hfault
    rw [start.take_line] at hbefore
    exact ⟨hblank, hbefore⟩
  · rintro ⟨hblank, hbefore⟩
    exact ⟨_, start.first, start.line, start.blank hblank, hblank,
      start.take_line.symm ▸ hbefore⟩

theorem pointsTo_iff : doc.PointsTo issue.span ↔
    cutLeft (start.before ++ start.first :: start.behind) ≤ start.before.length := by
  constructor
  · rintro ⟨line, hline, hsum⟩
    obtain rfl := Option.some.inj (start.line.symm.trans hline)
    rw [start.caretIndent_excerpt, start.column] at hsum
    omega
  · intro hle
    refine ⟨_, start.line, ?_⟩
    rw [start.caretIndent_excerpt, start.column]
    omega

end Document.Beginning

end Issues

/-- What the first caret of an issue stands below. If the issue is not hidden, that is the
character where the issue starts; otherwise the caret is not moved in at all. -/
structure Document.Pointing (doc : Document) (issue : ScanIssue) : Prop where
  points : doc.PointsTo issue.span ↔ ¬ doc.Hides issue
  below : ¬ doc.Hides issue → ∃ text c, doc.line? issue.span.start.line = some text ∧
    text[issue.span.start.column - 1]? = some c ∧
      (trimLeft text)[caretIndent (doc.excerpt issue.span)]? = some c
  astray : doc.Hides issue → caretIndent (doc.excerpt issue.span) = 0

/-- The carets of the issues of a scan stand below the characters where the issues start,
except for an illegal character that is cut off with the white space of its line. -/
theorem Document.pointing (doc : Document) :
    ∀ issue ∈ (scan doc.text).issues, doc.Pointing issue := by
  intro issue hissue
  obtain ⟨start⟩ := Document.exists_beginning hissue
  have hpoints : doc.PointsTo issue.span ↔ ¬ doc.Hides issue := by
    rw [start.pointsTo_iff, cutLeft_le_iff, start.hides_iff]
  refine ⟨hpoints, fun hshown => ?_, fun hhidden => ?_⟩
  · obtain ⟨text, hline, hsum⟩ := hpoints.mpr hshown
    have hfirst : text[issue.span.start.column - 1]? = some start.first := by
      obtain rfl := Option.some.inj (start.line.symm.trans hline)
      rw [start.column, Nat.add_sub_cancel]
      simp
    refine ⟨text, start.first, hline, hfirst, ?_⟩
    rw [trimLeft_eq_drop, List.getElem?_drop, Nat.add_comm, hsum, hfirst]
  · have hcut : ¬ cutLeft (start.before ++ start.first :: start.behind) ≤
        start.before.length := by
      rw [cutLeft_le_iff]
      exact not_not_intro (start.hides_iff.mp hhidden)
    rw [start.caretIndent_excerpt]
    omega

/-- A line with an illegal character behind another one that is cut off with a tab. -/
theorem Document.pointing_behind_blanks :
    ⟨.illegal '@', Span.ofLength ⟨1, 3⟩ 1⟩ ∈ (scan "\u000b\t@").issues ∧
      (Document.ofText "\u000b\t@").PointsTo (Span.ofLength ⟨1, 3⟩ 1) := by
  have hissue : ⟨.illegal '@', Span.ofLength ⟨1, 3⟩ 1⟩ ∈ (scan "\u000b\t@").issues := by
    have hissues : (scan "\u000b\t@").issues = [⟨.illegal '\u000b', Span.ofLength ⟨1, 1⟩ 1⟩,
        ⟨.illegal '@', Span.ofLength ⟨1, 3⟩ 1⟩] := by
      cbv
    rw [hissues]
    exact List.mem_cons_of_mem _ List.mem_cons_self
  refine ⟨hissue, ((Document.ofText "\u000b\t@").pointing _ hissue).points.mpr ?_⟩
  rintro ⟨line, c, _, hfault, hblank, _⟩
  obtain rfl := ScanFault.illegal.inj hfault
  exact absurd hblank (by decide)

/-- The caret of a no-break space at the start of a line stands below the name behind it,
which is fine. -/
theorem Document.not_pointsTo_noBreakSpace :
    (scan "\u00a0x").issues = [⟨.illegal '\u00a0', Span.ofLength ⟨1, 1⟩ 1⟩] ∧
      (Document.ofText "\u00a0x").excerpt (Span.ofLength ⟨1, 1⟩ 1) = "    x\n    ^" ∧
        ¬ (Document.ofText "\u00a0x").PointsTo (Span.ofLength ⟨1, 1⟩ 1) := by
  have hline : (Document.ofText "\u00a0x").line? 1 = some ['\u00a0', 'x'] := by
    decide
  have hexcerpt : (Document.ofText "\u00a0x").excerpt (Span.ofLength ⟨1, 1⟩ 1) =
      "    x\n    ^" := by
    decide
  refine ⟨by cbv, hexcerpt, ?_⟩
  rintro ⟨line, hfound, hsum⟩
  obtain rfl := Option.some.inj (hline.symm.trans hfound)
  rw [hexcerpt] at hsum
  exact absurd hsum (by decide)

end MiniLang

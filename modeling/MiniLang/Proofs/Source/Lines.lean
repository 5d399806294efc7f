/-
The lines of a document and the places in its text. A place counts newlines and the
characters behind the last one; a document is split at its newlines. Both name the same
line, and what a line loses at its end is never part of a token.
-/
import MiniLang.Proofs.Source.Index
import MiniLang.Proofs.Token.Placement
import MiniLang.Source.Document
import Mathlib

namespace MiniLang

theorem column_placeBehind (front : List Char) :
    (placeBehind front).column = (lastLine front).length + 1 := by
  rw [lastLine, List.length_reverse, Nat.add_comm]
  rfl

section Document

variable (doc : Document)

theorem Document.lineCount_eq :
    doc.lineCount = doc.text.toList.count '\n' + 1 :=
  LineIndex.empty.lineCount_setText doc.text

/-- The lines of a document are those of its text, without carriage returns at their
ends. -/
theorem Document.line?_eq (number : Nat) : doc.line? (number + 1) =
    (doc.text.toList.splitOn '\n')[number]?.map (dropRightWhile (· == '\r')) :=
  LineIndex.empty.line?_setText doc.text number

/-- The lines of a document are counted from one. -/
theorem Document.line?_isSome_iff {count : Nat} :
    (doc.line? count).isSome = true ↔ 1 ≤ count ∧ count ≤ doc.lineCount := by
  have hnone := LineIndex.empty.line?_eq_none_iff doc.text count
  change doc.line? count = none ↔ count = 0 ∨ doc.lineCount < count at hnone
  rw [Option.isSome_iff_ne_none, ne_eq, hnone]
  omega

/-- The line of a place in a document. -/
theorem Document.line?_placeBehind {front behind : List Char}
    (h : doc.text.toList = front ++ behind) :
    doc.line? (placeBehind front).line =
      some (dropRightWhile (· == '\r') (lastLine front ++ firstLine behind)) := by
  have hline : (placeBehind front).line = front.count '\n' + 1 := Nat.add_comm _ _
  rw [hline, doc.line?_eq, h, getElem?_splitOn_newline, Option.map_some]

end Document

theorem not_isBlank_of_isWordPart {c : Char} (h : isWordPart c = true) :
    isBlank c = false := by
  have hrange : 48 ≤ c.toNat ∧ c.toNat ≤ 122 := by
    simp only [isWordPart, Char.isAlphanum, Char.isAlpha, Char.isUpper, Char.isLower,
      Char.isDigit, Bool.or_eq_true, Bool.and_eq_true, decide_eq_true_eq, beq_iff_eq,
      ge_iff_le, UInt32.le_iff_toNat_le] at h
    rcases h with ((h | h) | h) | rfl
    · exact ⟨Nat.le_trans (by decide) h.1, Nat.le_trans h.2 (by decide)⟩
    · exact ⟨Nat.le_trans (by decide) h.1, Nat.le_trans h.2 (by decide)⟩
    · exact ⟨Nat.le_trans (by decide) h.1, Nat.le_trans h.2 (by decide)⟩
    · decide
  simp only [isBlank, blankRanges, List.any_cons, List.any_nil, Bool.or_false,
    Bool.or_eq_false_iff, Bool.and_eq_false_iff, decide_eq_false_iff_not]
  omega

/-- Whether a text has a last character, which no line loses at its end. -/
def StaysWhole (text : List Char) : Prop := ∃ front c, text = front ++ [c] ∧ c ≠ '\r'

theorem staysWhole_of_notMem {text : List Char} (hne : text ≠ []) (h : '\r' ∉ text) :
    StaysWhole text := by
  refine ⟨text.dropLast, text.getLast hne, (List.dropLast_append_getLast hne).symm, ?_⟩
  intro hlast
  exact h (hlast ▸ List.getLast_mem hne)

theorem staysWhole_of_digits {digits : List Char} (hne : digits ≠ [])
    (hdigits : ∀ digit ∈ digits, digit.isDigit = true) : StaysWhole digits := by
  refine staysWhole_of_notMem hne fun hmem => ?_
  exact absurd (hdigits _ hmem) (by decide)

theorem IsLexeme.staysWhole {kind : TokenKind} {text : List Char}
    (h : IsLexeme kind text) : StaysWhole text := by
  cases h with
  | keyword word =>
      apply staysWhole_of_notMem
      · cases word <;> decide
      · cases word <;> decide
  | punct mark =>
      apply staysWhole_of_notMem
      · cases mark <;> decide
      · cases mark <;> decide
  | @ident c rest hstart hrest _ =>
      refine staysWhole_of_notMem (List.cons_ne_nil c rest) ?_
      rw [List.mem_cons, not_or]
      constructor
      · rintro rfl
        exact absurd hstart (by decide)
      · exact fun hmem => absurd (hrest _ hmem) (by decide)
  | int hne hdigits _ => exact staysWhole_of_digits hne hdigits
  | @str body _ => exact ⟨'"' :: body, '"', rfl, by decide⟩

theorem Fits.staysWhole {kind : PieceKind} {text behind : List Char}
    (h : Fits kind text behind) {read : TokenKind} (hread : kind.token? = some read) :
    StaysWhole text := by
  cases h with
  | token h => exact h.staysWhole
  | clamped hne hdigits _ => exact staysWhole_of_digits hne hdigits
  | _ => cases hread

/-- Whether a line has the characters of a token in the columns of the token. The first
column has number one. -/
def Token.StandsIn (token : Token) (line : List Char) : Prop :=
  1 ≤ token.start.column ∧
    (line.drop (token.start.column - 1)).take token.length = token.lexeme.toList

/-- What a line is left with holds a text that stays whole in its columns. -/
theorem standsIn_line {front text behind : List Char} (hwhole : StaysWhole text)
    (hline : '\n' ∉ text) (kind : TokenKind) :
    Token.StandsIn ⟨kind, String.ofList text, placeBehind front⟩
      (dropRightWhile (· == '\r') (lastLine front ++ firstLine (text ++ behind))) := by
  obtain ⟨start, c, rfl, hc⟩ := hwhole
  have hleft : dropRightWhile (· == '\r')
        (lastLine front ++ firstLine (start ++ [c] ++ behind)) =
      lastLine front ++ (start ++ [c]
        ++ dropRightWhile (· == '\r') (firstLine behind)) := by
    rw [firstLine_append hline, List.append_assoc, List.singleton_append,
      ← List.append_assoc, dropRightWhile_append_cons (by simpa using hc)]
    simp
  rw [Token.StandsIn, hleft, Token.length, column_placeBehind, Nat.add_sub_cancel,
    List.drop_left, String.length_ofList, List.take_left, String.toList_ofList]
  exact ⟨Nat.le_add_left 1 _, rfl⟩

/-- What a stretch stands in front of. -/
theorem Divided.mem_split {before text : List Char} {stretches : List Stretch}
    (h : Divided before text stretches) :
    ∀ stretch ∈ stretches, ∃ behind,
      before ++ text = stretch.before ++ (stretch.text ++ behind) ∧
        Fits stretch.kind stretch.text behind := by
  induction h with
  | nil => exact List.forall_mem_nil _
  | cons hfits _ ih =>
      refine List.forall_mem_cons.mpr ⟨⟨_, rfl, hfits⟩, fun stretch hstretch => ?_⟩
      obtain ⟨behind, hsplit, hfit⟩ := ih stretch hstretch
      exact ⟨behind, by rw [← hsplit, List.append_assoc], hfit⟩

/-- Whether a stretch starts on a line of a document. -/
def Document.Shows (doc : Document) (span : Span) : Prop :=
  1 ≤ span.start.line ∧ span.start.line ≤ doc.lineCount

section Scan

variable {doc : Document}

theorem Document.line_placeBehind_le {front behind : List Char}
    (h : doc.text.toList = front ++ behind) :
    1 ≤ (placeBehind front).line ∧ (placeBehind front).line ≤ doc.lineCount := by
  rw [← doc.line?_isSome_iff, doc.line?_placeBehind h, Option.isSome_some]

/-- A token that is read from a text stands on a line of it. -/
theorem Document.line?_of_mem_wordsOf {token : Token}
    (h : token ∈ wordsOf doc.text) :
    ∃ line, doc.line? token.start.line = some line ∧ token.StandsIn line := by
  rw [wordsOf, origin_eq_placeBehind, placePieces_placeBehind, List.filterMap_map] at h
  obtain ⟨stretch, hstretch, hread⟩ := List.mem_filterMap.mp h
  obtain ⟨behind, hsplit, hfits⟩ :=
    (divided_pieces [] doc.text.toList).mem_split stretch hstretch
  obtain ⟨kind, hkind, rfl⟩ := Option.map_eq_some_iff.mp hread
  have hblank : stretch.kind ≠ .blank := by
    intro hblank
    rw [Stretch.placed, hblank] at hkind
    cases hkind
  refine ⟨_, doc.line?_placeBehind hsplit, ?_⟩
  exact standsIn_line (hfits.staysWhole hkind) (hfits.newline_notMem hblank) kind

/-- The end of the file is on the last line. -/
theorem Document.line_eof :
    (Position.origin.after doc.text.toList).line = doc.lineCount := by
  rw [origin_eq_placeBehind, after_placeBehind, List.nil_append, doc.lineCount_eq]
  exact Nat.add_comm _ _

theorem Document.shows_issue {issue : ScanIssue} (h : issue ∈ (scan doc.text).issues) :
    doc.Shows issue.span := by
  have haccounts := accounts_scan doc.text
  rw [haccounts.issues] at h
  obtain ⟨stretch, hstretch, hissue⟩ := List.mem_filterMap.mp h
  obtain ⟨behind, hsplit, hfits⟩ := haccounts.divided.mem_split stretch hstretch
  rw [← Stretch.issue?_placed hfits] at hissue
  obtain ⟨fault, _, rfl⟩ := Option.map_eq_some_iff.mp hissue
  exact Document.line_placeBehind_le hsplit

/-- Every token of a text starts on a line of it. -/
theorem Document.shows_token {token : Token} (h : token ∈ (scan doc.text).tokens) :
    doc.Shows token.span := by
  rw [scan_tokens, List.mem_append, List.mem_singleton] at h
  rcases h with hword | rfl
  · obtain ⟨line, hline, _⟩ := Document.line?_of_mem_wordsOf hword
    exact doc.line?_isSome_iff.mp (Option.isSome_of_eq_some hline)
  · have hcount := doc.lineCount_eq
    exact ⟨by rw [Token.span, Span.ofLength, Token.eofAt, Document.line_eof]; omega,
      Nat.le_of_eq Document.line_eof⟩

end Scan

end MiniLang

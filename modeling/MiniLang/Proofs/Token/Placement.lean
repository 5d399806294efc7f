/-
Where the pieces of a text stand: a line is counted for every newline in front of a
place, and a column for every character behind the last one. A scan accounts for all of a
text in this way.
-/
import MiniLang.Proofs.Token.Tokens
import Mathlib.Data.List.Infix

namespace MiniLang

/-- The place of the character that comes behind `front`. -/
def placeBehind (front : List Char) : Position :=
  ⟨1 + front.count '\n', 1 + (front.reverse.takeWhile (· != '\n')).length⟩

theorem next_placeBehind (front : List Char) (c : Char) :
    (placeBehind front).next c = placeBehind (front ++ [c]) := by
  unfold placeBehind Position.next
  rw [List.count_append, List.reverse_append, List.reverse_singleton,
    List.singleton_append]
  by_cases hc : c = '\n'
  · subst hc
    simp [Nat.add_assoc]
  · rw [if_neg hc, List.takeWhile_cons_of_pos (by simpa using hc)]
    simp [hc, Nat.add_assoc]

theorem after_placeBehind (front text : List Char) :
    (placeBehind front).after text = placeBehind (front ++ text) := by
  induction text generalizing front with
  | nil => rw [List.append_nil]; rfl
  | cons c rest ih =>
      rw [List.append_cons, ← ih, ← next_placeBehind]
      rfl

theorem origin_eq_placeBehind : Position.origin = placeBehind [] := rfl

/-- On one line, a column is counted for every character. -/
theorem Position.after_line {text : List Char} (h : '\n' ∉ text) (place : Position) :
    place.after text = ⟨place.line, place.column + text.length⟩ := by
  induction text generalizing place with
  | nil => rfl
  | cons c rest ih =>
      obtain ⟨hc, hrest⟩ := List.ne_and_not_mem_of_not_mem_cons h
      have hnext : place.next c = ⟨place.line, place.column + 1⟩ := if_neg (Ne.symm hc)
      calc place.after (c :: rest)
          = (place.next c).after rest := rfl
        _ = ⟨place.line, place.column + 1 + rest.length⟩ := by rw [hnext, ih hrest]
        _ = ⟨place.line, place.column + (c :: rest).length⟩ := by
            rw [List.length_cons, Nat.add_assoc, Nat.add_comm 1]

/-- A stretch of a text: what it is, its characters, and all those in front of it. -/
structure Stretch where
  before : List Char
  kind : PieceKind
  text : List Char

def Stretch.start (stretch : Stretch) : Position := placeBehind stretch.before

def Stretch.last (stretch : Stretch) : Position :=
  placeBehind (stretch.before ++ stretch.text.dropLast)

/-- A stretch from its first character to its last one. -/
def Stretch.span (stretch : Stretch) : Span := ⟨stretch.start, stretch.last⟩

/-- A text, with what stands in front of it, is divided into stretches that follow each
other without a gap. Each one fits in front of all that is left behind it. -/
inductive Divided : List Char → List Char → List Stretch → Prop where
  | nil {before : List Char} : Divided before [] []
  | cons {before text behind : List Char} {kind : PieceKind} {rest : List Stretch}
      (hfits : Fits kind text behind) (hrest : Divided (before ++ text) behind rest) :
      Divided before (text ++ behind) (⟨before, kind, text⟩ :: rest)

def Stretch.token? (stretch : Stretch) : Option Token :=
  match stretch.kind with
  | .token kind => some ⟨kind, String.ofList stretch.text, stretch.start⟩
  | .clamped => some ⟨.int maxInt, String.ofList stretch.text, stretch.start⟩
  | _ => none

/-- The error of a stretch that is discarded. -/
def Stretch.error? (stretch : Stretch) : Option ScanIssue :=
  match stretch.kind with
  | .rejected fault => some ⟨fault, stretch.span⟩
  | _ => none

/-- The error or the warning of a stretch. -/
def Stretch.issue? (stretch : Stretch) : Option ScanIssue :=
  match stretch.kind with
  | .clamped => some ⟨.tooLarge, stretch.span⟩
  | _ => stretch.error?

/-- A scan accounts for a text by stretches: the tokens and issues are theirs, in their
order, and the end of the file stands behind the whole text. -/
structure Scan.Accounts (outcome : Scan) (text : List Char) (stretches : List Stretch) :
    Prop where
  divided : Divided [] text stretches
  tokens : outcome.tokens =
    stretches.filterMap Stretch.token? ++ [Token.eofAt (placeBehind text)]
  words : ∀ token ∈ stretches.filterMap Stretch.token?, token.isEof = false
  issues : outcome.issues = stretches.filterMap Stretch.issue?
  errors : outcome.issues.filter (·.fault.severity == .error) =
    stretches.filterMap Stretch.error?

/-- Pieces as stretches of a text, behind what stands in front of them. -/
def stretchesBehind (before : List Char) : List Piece → List Stretch
  | [] => []
  | piece :: rest =>
      ⟨before, piece.kind, piece.text⟩ :: stretchesBehind (before ++ piece.text) rest

theorem divided_pieces (before text : List Char) :
    Divided before text (stretchesBehind before (pieces text)) := by
  induction text using pieces.induct generalizing before with
  | case1 =>
      rw [pieces]
      exact .nil
  | case2 c rest first ih =>
      have htext : c :: rest = (c :: rest.take first.2) ++ rest.drop first.2 := by
        rw [List.cons_append, List.take_append_drop]
      rw [pieces, htext]
      exact .cons (fits_firstPiece c rest) (ih _)

/-- Every stretch of a text fits in front of something. -/
theorem Divided.fits {before text : List Char} {stretches : List Stretch}
    (h : Divided before text stretches) :
    ∀ stretch ∈ stretches, ∃ behind, Fits stretch.kind stretch.text behind := by
  induction h with
  | nil => exact List.forall_mem_nil _
  | cons hfits _ ih => exact List.forall_mem_cons.mpr ⟨⟨_, hfits⟩, ih⟩

/-- A stretch as a piece in its place. -/
def Stretch.placed (stretch : Stretch) : PlacedPiece :=
  ⟨⟨stretch.kind, stretch.text⟩, stretch.start⟩

theorem placePieces_placeBehind (before : List Char) (pieces : List Piece) :
    placePieces (placeBehind before) pieces =
      (stretchesBehind before pieces).map Stretch.placed := by
  induction pieces generalizing before with
  | nil => rfl
  | cons piece rest ih =>
      rw [placePieces, stretchesBehind, List.map_cons, after_placeBehind, ih]
      rfl

theorem Stretch.token?_placed (stretch : Stretch) :
    stretch.placed.token? = stretch.token? := by
  obtain ⟨before, kind, text⟩ := stretch
  cases kind <;> rfl

/-- A stretch that lies on one line ends where its length says. -/
theorem Stretch.span_line {stretch : Stretch} (hline : '\n' ∉ stretch.text) :
    Span.ofLength stretch.start stretch.text.length = stretch.span := by
  have hlast : '\n' ∉ stretch.text.dropLast := fun h => hline (List.mem_of_mem_dropLast h)
  have hplace : stretch.last =
      ⟨stretch.start.line, stretch.start.column + (stretch.text.length - 1)⟩ := by
    rw [Stretch.last, ← after_placeBehind, Position.after_line hlast,
      List.length_dropLast]
    rfl
  rw [Stretch.span, hplace, Span.ofLength]
  have hcolumn : stretch.start.column + max stretch.text.length 1 - 1 =
      stretch.start.column + (stretch.text.length - 1) := by omega
  rw [hcolumn]

theorem Stretch.issue?_placed {stretch : Stretch} {behind : List Char}
    (h : Fits stretch.kind stretch.text behind) :
    stretch.placed.issue? = stretch.issue? := by
  by_cases hkind : stretch.kind = .blank
  · obtain ⟨before, kind, text⟩ := stretch
    obtain rfl : kind = .blank := hkind
    rfl
  · have hspan := Stretch.span_line (h.newline_notMem hkind)
    unfold Stretch.issue? Stretch.error? PlacedPiece.issue?
    rw [← hspan]
    obtain ⟨before, kind, text⟩ := stretch
    cases kind <;> rfl

theorem Fits.severity {fault : ScanFault} {text behind : List Char}
    (h : Fits (.rejected fault) text behind) : fault.severity = .error := by
  cases h <;> rfl

/-- The errors among the issues belong to the stretches that are discarded. -/
theorem Stretch.filter_issue? {stretch : Stretch} {behind : List Char}
    (h : Fits stretch.kind stretch.text behind) :
    stretch.issue?.filter (·.fault.severity == .error) = stretch.error? := by
  obtain ⟨before, kind, text⟩ := stretch
  cases kind with
  | rejected fault =>
      have hseverity : fault.severity = .error := h.severity
      simp [Stretch.issue?, Stretch.error?, hseverity]
  | _ => rfl

/-- The pieces of a text account for its scan. -/
theorem accounts_scan (text : String) :
    (scan text).Accounts text.toList (stretchesBehind [] (pieces text.toList)) := by
  have hdivided := divided_pieces [] text.toList
  have hplaced := placePieces_placeBehind [] (pieces text.toList)
  have hfits := hdivided.fits
  generalize stretchesBehind [] (pieces text.toList) = stretches at hdivided hplaced hfits ⊢
  have hwords : wordsOf text = stretches.filterMap Stretch.token? := by
    rw [wordsOf, origin_eq_placeBehind, hplaced, List.filterMap_map]
    exact List.filterMap_congr fun stretch _ => stretch.token?_placed
  have hissues : (scan text).issues = stretches.filterMap Stretch.issue? := by
    change (placePieces (placeBehind []) (pieces text.toList)).filterMap
      PlacedPiece.issue? = _
    rw [hplaced, List.filterMap_map]
    refine List.filterMap_congr fun stretch hstretch => ?_
    obtain ⟨behind, hfit⟩ := hfits stretch hstretch
    exact Stretch.issue?_placed hfit
  exact {
    divided := hdivided
    tokens := by
      rw [scan_tokens, hwords, origin_eq_placeBehind, after_placeBehind, List.nil_append]
    words := by
      rw [← hwords]
      exact not_isEof_of_mem_wordsOf
    issues := hissues
    errors := by
      rw [hissues, List.filter_filterMap]
      refine List.filterMap_congr fun stretch hstretch => ?_
      obtain ⟨behind, hfit⟩ := hfits stretch hstretch
      exact Stretch.filter_issue? hfit }

/-- Nothing of a text is lost in a scan: it is divided into separators, comments, the
lexemes of the tokens, and discarded stretches, which are those of the errors. -/
theorem scan_loses_nothing (text : String) :
    ∃ stretches, (scan text).Accounts text.toList stretches :=
  ⟨_, accounts_scan text⟩

end MiniLang

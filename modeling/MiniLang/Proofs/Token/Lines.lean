/-
Scanning line by line: no piece goes on behind a newline, so a text is scanned like the
texts in front of a newline and behind it, the latter moved down.
-/
import MiniLang.Proofs.Token.Placement

namespace MiniLang

theorem takeWhile_newline {p : Char → Bool} (h : p '\n' = false) (rest back : List Char) :
    (rest ++ '\n' :: back).takeWhile p = rest.takeWhile p := by
  induction rest with
  | nil =>
      rw [List.nil_append, List.takeWhile_cons_of_neg (by simp [h])]
      rfl
  | cons c rest ih => rw [List.cons_append, List.takeWhile_cons, List.takeWhile_cons, ih]

/-- The end of a line ends a string literal like the end of the text. -/
theorem literalTail_append_newline (rest back : List Char) :
    literalTail (rest ++ '\n' :: back) = literalTail rest := by
  induction rest using literalTail.induct with
  | case1 =>
      rw [List.nil_append, literalTail_newline]
      rfl
  | case2 rest => rw [List.cons_append, literalTail_newline, literalTail_newline]
  | case3 rest => rw [List.cons_append, literalTail_quote, literalTail_quote]
  | case4 => simp [literalTail]
  | case5 rest => simp [literalTail]
  | case6 escaped rest hescaped _ _ ih =>
      rw [List.cons_append, List.cons_append, literalTail_escape hescaped,
        literalTail_escape hescaped, ih]
  | case7 c rest hnewline hquote hbackslash ih =>
      rw [List.cons_append, literalTail_plain hnewline hquote hbackslash,
        literalTail_plain hnewline hquote hbackslash, ih]

theorem ReadsLiteral.length_le {rest : List Char} {tail : LiteralTail}
    (h : ReadsLiteral rest tail) : tail.length ≤ rest.length := by
  cases h <;> simp

theorem isPrefixOf_newline {word : List Char} (h : '\n' ∉ word) (text back : List Char) :
    word.isPrefixOf (text ++ '\n' :: back) = word.isPrefixOf text := by
  induction word generalizing text with
  | nil => rw [List.isPrefixOf_nil_left, List.isPrefixOf_nil_left]
  | cons c word ih =>
      obtain ⟨hc, hword⟩ := List.ne_and_not_mem_of_not_mem_cons h
      cases text with
      | nil => simp [List.isPrefixOf, hc.symm]
      | cons d text => rw [List.cons_append, List.isPrefixOf, List.isPrefixOf, ih hword]

theorem Punct.newline_notMem_spelling (mark : Punct) : '\n' ∉ mark.spelling.toList :=
  (IsLexeme.punct mark).newline_notMem

theorem Punct.longest?_newline (text back : List Char) :
    Punct.longest? (text ++ '\n' :: back) = Punct.longest? text := by
  unfold Punct.longest?
  congr 1
  funext mark
  exact isPrefixOf_newline mark.newline_notMem_spelling text back

/-- What a text starts with does not depend on what stands behind its line. -/
theorem firstPiece_newline (c : Char) (rest back : List Char) :
    firstPiece c (rest ++ '\n' :: back) = firstPiece c rest := by
  have hhead : (rest ++ '\n' :: back).head? = some '/' ↔ rest.head? = some '/' := by
    cases rest <;> simp
  have htake : (rest ++ '\n' :: back).take (literalTail rest).length =
      rest.take (literalTail rest).length :=
    List.take_append_of_le_length (readsLiteral_literalTail rest).length_le
  simp only [firstPiece, hhead, literalTail_append_newline, htake,
    takeWhile_newline (p := (· != '\n')) (by decide),
    takeWhile_newline (p := Char.isDigit) (by decide),
    takeWhile_newline (p := isWordPart) (by decide),
    ← List.cons_append, Punct.longest?_newline]

theorem length_firstPiece_le (c : Char) (rest : List Char) :
    (firstPiece c rest).2 ≤ rest.length := by
  obtain ⟨front, behind, htext, hlength, -⟩ := startsWith_firstPiece c rest
  have htotal := congrArg List.length htext
  rw [List.length_cons, List.length_append, hlength] at htotal
  omega

/-- The newline between two texts is a piece of its own. -/
theorem pieces_newline (front back : List Char) :
    pieces (front ++ '\n' :: back) = pieces front ++ ⟨.blank, ['\n']⟩ :: pieces back := by
  induction front using pieces.induct with
  | case1 =>
      rw [List.nil_append, pieces, pieces]
      rfl
  | case2 c rest first ih =>
      -- the first piece lies in front of the newline, so it is the same without it
      have hle : first.2 ≤ rest.length := length_firstPiece_le c rest
      have hsame : firstPiece c (rest ++ '\n' :: back) = first :=
        firstPiece_newline c rest back
      rw [List.cons_append, pieces, pieces]
      simp only [hsame]
      rw [List.take_append_of_le_length hle, List.drop_append_of_le_length hle, ih]
      rfl

theorem placePieces_append (start : Position) (front back : List Piece) :
    placePieces start (front ++ back) =
      placePieces start front ++
        placePieces (start.after (front.flatMap Piece.text)) back := by
  induction front generalizing start with
  | nil => rfl
  | cons piece rest ih =>
      rw [List.cons_append, placePieces, placePieces, ih, List.cons_append,
        List.flatMap_cons, Position.after_append]

/-- A place moved down by a number of lines. -/
def Position.down (count : Nat) (place : Position) : Position :=
  ⟨place.line + count, place.column⟩

def Span.down (count : Nat) (span : Span) : Span :=
  ⟨span.start.down count, span.stop.down count⟩

def Token.down (count : Nat) (token : Token) : Token :=
  { token with start := token.start.down count }

def ScanIssue.down (count : Nat) (issue : ScanIssue) : ScanIssue :=
  { issue with span := issue.span.down count }

def PlacedPiece.down (count : Nat) (placed : PlacedPiece) : PlacedPiece :=
  { placed with start := placed.start.down count }

theorem Position.next_down (count : Nat) (place : Position) (c : Char) :
    (place.down count).next c = (place.next c).down count := by
  unfold Position.next Position.down
  split
  · rw [Nat.add_right_comm]
  · rfl

theorem Position.after_down (count : Nat) (place : Position) (text : List Char) :
    (place.down count).after text = (place.after text).down count := by
  induction text generalizing place with
  | nil => rfl
  | cons c rest ih =>
      calc (place.down count).after (c :: rest)
          = ((place.down count).next c).after rest := rfl
        _ = ((place.next c).down count).after rest := by rw [Position.next_down]
        _ = (place.after (c :: rest)).down count := ih (place.next c)

theorem placePieces_down (count : Nat) (start : Position) (pieces : List Piece) :
    placePieces (start.down count) pieces =
      (placePieces start pieces).map (PlacedPiece.down count) := by
  induction pieces generalizing start with
  | nil => rfl
  | cons piece rest ih =>
      rw [placePieces, placePieces, Position.after_down, ih, List.map_cons]
      rfl

theorem PlacedPiece.token?_down (count : Nat) (placed : PlacedPiece) :
    (placed.down count).token? = placed.token?.map (Token.down count) := by
  rw [PlacedPiece.token?, PlacedPiece.token?, Option.map_map]
  rfl

theorem PlacedPiece.issue?_down (count : Nat) (placed : PlacedPiece) :
    (placed.down count).issue? = placed.issue?.map (ScanIssue.down count) := by
  rw [PlacedPiece.issue?, PlacedPiece.issue?, Option.map_map]
  rfl

/-- Behind a newline, a text starts that many lines down. -/
theorem origin_after_newline (front : List Char) :
    Position.origin.after (front ++ ['\n']) =
      Position.origin.down (1 + front.count '\n') := by
  have hline : (1 + front.count '\n') + 1 = 1 + (1 + front.count '\n') := Nat.add_comm _ 1
  rw [origin_eq_placeBehind, after_placeBehind, List.nil_append, ← next_placeBehind]
  exact congrArg (Position.mk · 1) hline

/-- The end of two texts with a newline between them. -/
theorem origin_after_append_newline (front back : List Char) :
    Position.origin.after (front ++ '\n' :: back) =
      (Position.origin.after back).down (1 + front.count '\n') := by
  rw [List.append_cons, Position.after_append, origin_after_newline, Position.after_down]

/-- The places of two texts with a newline between them. -/
theorem placePieces_newline (front back : List Char) :
    placePieces .origin (pieces (front ++ '\n' :: back)) =
      placePieces .origin (pieces front) ++
        ⟨⟨.blank, ['\n']⟩, Position.origin.after front⟩ ::
          (placePieces .origin (pieces back)).map
            (PlacedPiece.down (1 + front.count '\n')) := by
  rw [pieces_newline, placePieces_append, pieces_text, placePieces,
    ← Position.after_append, origin_after_newline, placePieces_down]

/-- What is read from the pieces of two texts with a newline between them, when nothing
is read from the newline and what is read moves down with its piece. -/
theorem filterMap_newline {α : Type} {read : PlacedPiece → Option α} {down : Nat → α → α}
    (hblank : ∀ place, read ⟨⟨.blank, ['\n']⟩, place⟩ = none)
    (hdown : ∀ count placed, read (placed.down count) = (read placed).map (down count))
    (front back : String) :
    (placePieces .origin (pieces (front ++ "\n" ++ back).toList)).filterMap read =
      (placePieces .origin (pieces front.toList)).filterMap read ++
        ((placePieces .origin (pieces back.toList)).filterMap read).map
          (down (1 + front.toList.count '\n')) := by
  have htext : (front ++ "\n" ++ back).toList = front.toList ++ '\n' :: back.toList := by
    simp
  rw [htext, placePieces_newline, List.filterMap_append,
    List.filterMap_cons_none (hblank _), List.filterMap_map, List.map_filterMap]
  congr 2
  funext placed
  exact hdown _ placed

theorem filter_not_isEof (text : String) :
    (scan text).tokens.filter (!·.isEof) = wordsOf text := by
  have hwords : (wordsOf text).filter (!·.isEof) = wordsOf text := by
    rw [List.filter_eq_self]
    intro token htoken
    rw [not_isEof_of_mem_wordsOf token htoken, Bool.not_false]
  rw [scan_tokens, List.filter_append, hwords]
  exact List.append_nil _

/-- A text is scanned line by line: the tokens and the issues of two texts with a newline
between them are those of the first one, without the end of the file, and those of the
second one, moved down by the lines in front of it. -/
theorem scan_newline (front back : String) :
    (scan (front ++ "\n" ++ back)).tokens =
        (scan front).tokens.filter (!·.isEof) ++
          (scan back).tokens.map (Token.down (1 + front.toList.count '\n')) ∧
      (scan (front ++ "\n" ++ back)).issues =
        (scan front).issues ++
          (scan back).issues.map (ScanIssue.down (1 + front.toList.count '\n')) := by
  constructor
  · have hwords : wordsOf (front ++ "\n" ++ back) =
        wordsOf front ++
          (wordsOf back).map (Token.down (1 + front.toList.count '\n')) :=
      filterMap_newline (fun _ => rfl) PlacedPiece.token?_down front back
    have hend : Position.origin.after (front ++ "\n" ++ back).toList =
        (Position.origin.after back.toList).down (1 + front.toList.count '\n') := by
      rw [← origin_after_append_newline]
      simp
    rw [filter_not_isEof, scan_tokens back, List.map_append, ← List.append_assoc,
      ← hwords, scan_tokens, hend]
    rfl
  · exact filterMap_newline (fun _ => rfl) PlacedPiece.issue?_down front back

end MiniLang

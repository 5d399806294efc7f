/-
Scanning does not depend on how tokens are spaced: the lexemes of a text, with other
separators between them, are read as the same tokens again.
-/
import MiniLang.Proofs.Token.Lexemes
import Mathlib

namespace MiniLang

/-- A separator: blanks, and comments with the newline that closes them. -/
inductive Separates : List Char → Prop where
  | nil : Separates []
  | blank {c : Char} {rest : List Char} (hblank : isSeparator c = true)
      (hrest : Separates rest) : Separates (c :: rest)
  | hash {body rest : List Char} (hbody : '\n' ∉ body) (hrest : Separates rest) :
      Separates ('#' :: body ++ '\n' :: rest)
  | slashes {body rest : List Char} (hbody : '\n' ∉ body) (hrest : Separates rest) :
      Separates ('/' :: '/' :: body ++ '\n' :: rest)

/-- Whether a text is empty or starts with a blank. -/
def EndsWord (behind : List Char) : Prop := ∀ c ∈ behind.head?, isSeparator c = true

/-- The lexemes of tokens, with a separator behind each one. It starts with a blank, and
only the last one may be empty. -/
inductive Spaced : List Token → List Char → Prop where
  | nil : Spaced [] []
  | last {token : Token} {gap : List Char} (hgap : Separates gap) (hends : EndsWord gap) :
      Spaced [token] (token.lexeme.toList ++ gap)
  | cons {token next : Token} {tokens : List Token} {gap text : List Char}
      (hgap : Separates gap) (hne : gap ≠ []) (hends : EndsWord gap)
      (htext : Spaced (next :: tokens) text) :
      Spaced (token :: next :: tokens) (token.lexeme.toList ++ (gap ++ text))

/-- What a token says, and how it is written. -/
def Token.word (token : Token) : TokenKind × String := (token.kind, token.lexeme)

/-- The token of a piece, without its place. -/
def Piece.word? (piece : Piece) : Option (TokenKind × String) :=
  piece.kind.token?.map (·, String.ofList piece.text)

/-- Pieces are those of words and of what separates them: none is discarded. -/
structure Carries (pieces : List Piece) (words : List (TokenKind × String)) : Prop where
  words : pieces.filterMap Piece.word? = words
  kept : ∀ piece ∈ pieces, ∀ fault, piece.kind ≠ .rejected fault

theorem carries_nil : Carries [] [] := ⟨rfl, List.forall_mem_nil _⟩

theorem Carries.skip {pieces : List Piece} {words : List (TokenKind × String)}
    (h : Carries pieces words) {kind : PieceKind} {text : List Char}
    (hkind : kind = .blank ∨ kind = .comment) :
    Carries (⟨kind, text⟩ :: pieces) words := by
  constructor
  · rw [List.filterMap_cons_none, h.words]
    rcases hkind with rfl | rfl <;> rfl
  · refine List.forall_mem_cons.mpr ⟨?_, h.kept⟩
    rcases hkind with rfl | rfl <;> exact fun _ => PieceKind.noConfusion

theorem Carries.cons {pieces : List Piece} {words : List (TokenKind × String)}
    (h : Carries pieces words) {piece : PieceKind} {kind : TokenKind} {text : List Char}
    (hkind : piece.token? = some kind) :
    Carries (⟨piece, text⟩ :: pieces) ((kind, String.ofList text) :: words) := by
  constructor
  · have hword : Piece.word? ⟨piece, text⟩ = some (kind, String.ofList text) := by
      rw [Piece.word?, hkind]
      rfl
    rw [List.filterMap_cons_some hword, h.words]
  · refine List.forall_mem_cons.mpr ⟨?_, h.kept⟩
    rintro fault rfl
    cases hkind

theorem pieces_blank {c : Char} (hblank : isSeparator c = true) (rest : List Char) :
    pieces (c :: rest) = ⟨.blank, [c]⟩ :: pieces rest := by
  rw [pieces, firstPiece, if_pos hblank]
  rfl

theorem pieces_comment {c : Char} {body : List Char}
    (hcomment : c = '#' ∨ c = '/' ∧ body.head? = some '/') (hbody : '\n' ∉ body) :
    pieces (c :: body) = [⟨.comment, c :: body⟩] := by
  have hseparator : ¬ isSeparator c = true := by
    rcases hcomment with rfl | ⟨rfl, -⟩ <;> decide
  have hline : body.takeWhile (· != '\n') = body := by
    have hpass : ∀ d ∈ body, (d != '\n') = true :=
      fun d hd => bne_iff_ne.mpr (ne_of_mem_of_not_mem hd hbody)
    have hstop : (body ++ []).takeWhile (· != '\n') = body :=
      takeWhile_append_stop hpass nofun
    rwa [List.append_nil] at hstop
  have hfirst : firstPiece c body = (.comment, body.length) := by
    rw [firstPiece, if_neg hseparator, if_pos hcomment, hline]
  rw [pieces]
  simp only [hfirst, List.take_length, List.drop_length]
  rw [pieces]

/-- A comment is not seen, with the newline that closes it. -/
theorem Carries.comment {c : Char} {body rest : List Char}
    {words : List (TokenKind × String)} (h : Carries (pieces rest) words)
    (hcomment : c = '#' ∨ c = '/' ∧ body.head? = some '/') (hbody : '\n' ∉ body) :
    Carries (pieces (c :: body ++ '\n' :: rest)) words := by
  rw [pieces_newline, pieces_comment hcomment hbody]
  exact (h.skip (.inl rfl)).skip (.inr rfl)

/-- A separator is not seen. -/
theorem Separates.carries {gap rest : List Char} {words : List (TokenKind × String)}
    (hgap : Separates gap) (h : Carries (pieces rest) words) :
    Carries (pieces (gap ++ rest)) words := by
  induction hgap with
  | nil => exact h
  | blank hblank _ ih =>
      rw [List.cons_append, pieces_blank hblank]
      exact ih.skip (.inl rfl)
  | hash hbody _ ih =>
      rw [List.append_assoc]
      exact ih.comment (.inl rfl) hbody
  | @slashes body _ hbody _ ih =>
      have hnewline : '\n' ∉ '/' :: body := by simp [hbody]
      rw [List.append_assoc]
      exact ih.comment (.inr ⟨rfl, rfl⟩) hnewline

theorem stops_of_isSeparator {c : Char} (h : isSeparator c = true) :
    isWordPart c = false ∧ c.isDigit = false ∧ lengthens c = false := by
  simp only [isSeparator, Bool.or_eq_true, beq_iff_eq] at h
  rcases h with ((rfl | rfl) | rfl) | rfl <;> decide

theorem EndsWord.stops {behind : List Char} (h : EndsWord behind) (kind : TokenKind) :
    kind.Stops behind := by
  cases kind with
  | keyword word => exact fun c hc => (stops_of_isSeparator (h c hc)).1
  | ident name => exact fun c hc => (stops_of_isSeparator (h c hc)).1
  | int value => exact fun c hc => (stops_of_isSeparator (h c hc)).2.1
  | punct mark => exact fun _ c hc => (stops_of_isSeparator (h c hc)).2.2
  | str text => trivial
  | eof => trivial

theorem EndsWord.append {gap : List Char} (h : EndsWord gap) (hne : gap ≠ [])
    (behind : List Char) : EndsWord (gap ++ behind) := by
  intro c hc
  rw [List.head?_append_of_ne_nil gap hne] at hc
  exact h c hc

/-- The lexeme of a token is read as the token again, in front of a blank. -/
theorem carries_lexeme {source : String} {token : Token} (htoken : token ∈ wordsOf source)
    {behind : List Char} {words : List (TokenKind × String)} (hends : EndsWord behind)
    (h : Carries (pieces behind) words) :
    Carries (pieces (token.lexeme.toList ++ behind)) (token.word :: words) := by
  obtain ⟨_, _, _, hlongest⟩ := longestBetween_of_mem_wordsOf token htoken
  obtain ⟨form, hform, _⟩ := hlongest.form
  obtain ⟨piece, hpiece, hpieces⟩ := hform.pieces (hends.stops token.kind)
  rw [hpieces]
  have hword : token.word = (token.kind, String.ofList token.lexeme.toList) := by
    rw [String.ofList_toList]
    rfl
  rw [hword]
  exact h.cons hpiece

/-- Spaced lexemes are read as the tokens they belong to. -/
theorem Spaced.carries {source : String} {tokens : List Token} {text : List Char}
    (h : Spaced tokens text) (htokens : ∀ token ∈ tokens, token ∈ wordsOf source) :
    Carries (pieces text) (tokens.map Token.word) := by
  induction h with
  | nil =>
      rw [pieces]
      exact carries_nil
  | @last token gap hgap hends =>
      have hrest : Carries (pieces (gap ++ [])) [] :=
        hgap.carries (by rw [pieces]; exact carries_nil)
      rw [List.append_nil] at hrest
      exact carries_lexeme (htokens token List.mem_cons_self) hends hrest
  | @cons token next tokens gap text hgap hne hends _ ih =>
      obtain ⟨htoken, hmore⟩ := List.forall_mem_cons.mp htokens
      exact carries_lexeme htoken (hends.append hne text) (hgap.carries (ih hmore))

theorem words_scan (text : String) :
    (scan text).tokens.map Token.word =
      (pieces text.toList).filterMap Piece.word? ++ [(.eof, "")] := by
  have hword : ∀ placed : PlacedPiece,
      placed.token?.map Token.word = placed.piece.word? := by
    intro placed
    rw [PlacedPiece.token?, Piece.word?, Option.map_map]
    rfl
  have hpieces := map_piece_placePieces .origin (pieces text.toList)
  rw [scan_tokens, List.map_append, wordsOf, List.map_filterMap]
  simp only [hword]
  rw [← Function.comp_def Piece.word? PlacedPiece.piece, ← List.filterMap_map, hpieces]
  rfl

/-- A scan reads the tokens of another one again. There are no errors, and one warning
about every integer literal that is too large. -/
structure Scan.ReadsAgain (outcome other : Scan) : Prop where
  words : outcome.tokens.map Token.word = other.tokens.map Token.word
  errors : outcome.issues.filter (·.fault.severity == .error) = []
  warnings : outcome.issues = (outcome.tokens.filter Token.isLarge).map Token.tooLarge
  count : outcome.issues.length = other.tokens.countP Token.isLarge

/-- Where no piece is discarded, the scanner only warns. -/
theorem Carries.warnings {text : String} {words : List (TokenKind × String)}
    (h : Carries (pieces text.toList) words) :
    ∀ issue ∈ (scan text).issues, issue.fault.severity = .warning := by
  intro issue hissue
  obtain ⟨placed, hplaced, hread⟩ := List.mem_filterMap.mp hissue
  obtain ⟨fault, hfault, rfl⟩ := Option.map_eq_some_iff.mp hread
  have hpiece : placed.piece ∈ pieces text.toList := by
    rw [← map_piece_placePieces .origin (pieces text.toList)]
    exact List.mem_map_of_mem hplaced
  have hkept := h.kept placed.piece hpiece fault
  cases hkind : placed.piece.kind with
  | clamped =>
      rw [hkind] at hfault
      obtain rfl := Option.some.inj hfault
      rfl
  | rejected other =>
      rw [hkind] at hfault
      obtain rfl := Option.some.inj hfault
      exact absurd hkind hkept
  | _ =>
      rw [hkind] at hfault
      cases hfault

/-- Whether a token is too large is told by what it says and how it is written. -/
theorem countP_isLarge {tokens others : List Token}
    (h : tokens.map Token.word = others.map Token.word) :
    tokens.countP Token.isLarge = others.countP Token.isLarge := by
  have hlarge : Token.isLarge =
      (fun word : TokenKind × String => Token.isLarge ⟨word.1, word.2, .origin⟩) ∘
        Token.word := rfl
  rw [hlarge, ← List.countP_map, h, List.countP_map]

/-- Scanning is stable under another spacing. -/
theorem scan_respaced {source : String} {front text : List Char} (hfront : Separates front)
    (htext : Spaced (wordsOf source) text) :
    (scan (String.ofList (front ++ text))).ReadsAgain (scan source) := by
  have hcarries : Carries (pieces (String.ofList (front ++ text)).toList)
      ((wordsOf source).map Token.word) := by
    rw [String.toList_ofList]
    exact hfront.carries (htext.carries fun _ htoken => htoken)
  have hwarning := hcarries.warnings
  have hwords : (scan (String.ofList (front ++ text))).tokens.map Token.word =
      (scan source).tokens.map Token.word := by
    rw [words_scan, hcarries.words, scan_tokens, List.map_append]
    rfl
  have hissues : (scan (String.ofList (front ++ text))).issues =
      ((scan (String.ofList (front ++ text))).tokens.filter Token.isLarge).map
        Token.tooLarge := by
    rw [← warnings_scan, eq_comm, List.filter_eq_self]
    intro issue hissue
    rw [hwarning issue hissue]
    rfl
  exact {
    words := hwords
    errors := by
      rw [List.filter_eq_nil_iff]
      intro issue hissue
      rw [hwarning issue hissue]
      decide
    warnings := hissues
    count := by
      rw [hissues, List.length_map, ← List.countP_eq_length_filter,
        countP_isLarge hwords] }

theorem scan_respaced_division :
    (scan ("#c\n" ++ "x\t/ //d\n4294967296")).ReadsAgain (scan "x/4294967296") := by
  have hwords : wordsOf "x/4294967296" =
      [⟨.ident "x", "x", ⟨1, 1⟩⟩, ⟨.punct .slash, "/", ⟨1, 2⟩⟩,
        ⟨.int maxInt, "4294967296", ⟨1, 3⟩⟩] := by
    cbv
  have hline {c : Char} (hc : c ≠ '\n') : '\n' ∉ [c] := by simpa using hc.symm
  have hfront : Separates "#c\n".toList := .hash (hline (by decide)) .nil
  have htab : Separates ['\t'] := .blank rfl .nil
  have hgap : Separates " //d\n".toList :=
    .blank rfl (.slashes (hline (by decide)) .nil)
  have htext : Spaced (wordsOf "x/4294967296") "x\t/ //d\n4294967296".toList := by
    rw [hwords]
    refine .cons htab (by decide) ?_ (.cons hgap (by decide) ?_ (.last .nil ?_))
    all_goals simp [EndsWord, isSeparator]
  have hagain := scan_respaced hfront htext
  rw [String.ofList_append, String.ofList_toList, String.ofList_toList] at hagain
  exact hagain

end MiniLang

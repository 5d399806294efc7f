/-
The forms that a lexeme can have. A text has at most one of them, and with it says what
its token is. A scan reads the longest lexeme that a token can have at its place, and
warns about the integer literals that are too large.
-/
import MiniLang.Proofs.Token.Lines
import Mathlib.Data.List.Nodup

namespace MiniLang

/-- The forms of lexemes: a reserved word, another word, a run of digits, a text between
quotes, an operator or a punctuation mark. -/
inductive LexemeForm where
  | reserved
  | name
  | number
  | literal
  | mark
deriving Repr, DecidableEq

/-- A lexeme has a form, and is read as a token of a kind. Reserved words are not names,
and a number above the largest value is read as that value. -/
inductive LexemeForm.Reads : LexemeForm → List Char → TokenKind → Prop where
  | reserved (word : Keyword) : Reads .reserved word.spelling.toList (.keyword word)
  | name {c : Char} {rest : List Char} (hstart : isWordStart c = true)
      (hrest : ∀ part ∈ rest, isWordPart part = true)
      (hword : ∀ word : Keyword, word.spelling.toList ≠ c :: rest) :
      Reads .name (c :: rest) (.ident (String.ofList (c :: rest)))
  | number {digits : List Char} (hne : digits ≠ [])
      (hdigits : ∀ digit ∈ digits, digit.isDigit = true) :
      Reads .number digits (.int (min (decimalValue digits : Int) maxInt))
  | literal {body : List Char} (hbody : LiteralBody body true) :
      Reads .literal ('"' :: body ++ ['"']) (.str (String.ofList ('"' :: body ++ ['"'])))
  | mark (mark : Punct) : Reads .mark mark.spelling.toList (.punct mark)

/-- The form that the lexeme of a token has. -/
def TokenKind.form? : TokenKind → Option LexemeForm
  | .keyword _ => some .reserved
  | .ident _ => some .name
  | .int _ => some .number
  | .str _ => some .literal
  | .punct _ => some .mark
  | .eof => none

theorem LexemeForm.Reads.form?_eq {form : LexemeForm} {text : List Char}
    {kind : TokenKind} (h : form.Reads text kind) : kind.form? = some form := by
  cases h <;> rfl

theorem Keyword.spelling_ne_of_ofSpelling? {word : List Char}
    (h : Keyword.ofSpelling? (String.ofList word) = none) (keyword : Keyword) :
    keyword.spelling.toList ≠ word := by
  rintro rfl
  rw [String.ofList_toList, Keyword.ofSpelling?_spelling] at h
  cases h

theorem Keyword.ofSpelling?_eq_none {word : List Char}
    (h : ∀ keyword : Keyword, keyword.spelling.toList ≠ word) :
    Keyword.ofSpelling? (String.ofList word) = none := by
  cases hkeyword : Keyword.ofSpelling? (String.ofList word) with
  | none => rfl
  | some keyword =>
      refine absurd ?_ (h keyword)
      rw [Keyword.spelling_of_ofSpelling? hkeyword, String.toList_ofList]

/-- Every lexeme that a piece is read from has a form. -/
theorem Fits.reads {kind : PieceKind} {text behind : List Char}
    (h : Fits kind text behind) {read : TokenKind} (hread : kind.token? = some read) :
    ∃ form : LexemeForm, form.Reads text read := by
  cases h with
  | token h =>
      obtain rfl := Option.some.inj hread
      cases h with
      | keyword word => exact ⟨_, .reserved word⟩
      | punct mark => exact ⟨_, .mark mark⟩
      | ident hstart hrest hword =>
          exact ⟨_, .name hstart hrest (Keyword.spelling_ne_of_ofSpelling? hword)⟩
      | int hne hdigits hsmall =>
          rw [← Int.min_eq_left hsmall]
          exact ⟨_, .number hne hdigits⟩
      | str hbody => exact ⟨_, .literal hbody⟩
  | clamped hne hdigits hlarge =>
      obtain rfl := Option.some.inj hread
      rw [← Int.min_eq_right (Int.le_of_lt hlarge)]
      exact ⟨_, .number hne hdigits⟩
  | _ => cases hread

theorem numberKind_token? (digits : List Char) :
    (numberKind digits).token? = some (.int (min (decimalValue digits : Int) maxInt)) := by
  unfold numberKind
  dsimp only
  split
  · next hsmall => rw [Int.min_eq_left hsmall]; rfl
  · next hlarge => rw [Int.min_eq_right (Int.le_of_lt (Int.not_le.mp hlarge))]; rfl

theorem LexemeForm.Reads.isLexeme {form : LexemeForm} {text : List Char}
    {kind : TokenKind} (h : form.Reads text kind) (hform : form ≠ .number) :
    IsLexeme kind text := by
  cases h with
  | reserved word => exact .keyword word
  | name hstart hrest hword =>
      exact .ident hstart hrest (Keyword.ofSpelling?_eq_none hword)
  | number _ _ => exact absurd rfl hform
  | literal hbody => exact .str hbody
  | mark mark => exact .punct mark

theorem IsLexeme.spelling {kind : TokenKind} {text : List Char} (h : IsLexeme kind text)
    (hkind : kind.form? ≠ some .number) : kind.spelling.toList = text := by
  cases h with
  | keyword word => rfl
  | punct mark => rfl
  | ident _ _ _ => exact String.toList_ofList
  | int _ _ _ => exact absurd rfl hkind
  | str _ => exact String.toList_ofList

/-- A lexeme that nothing behind it makes longer is the first piece of a text. -/
theorem LexemeForm.Reads.pieces {form : LexemeForm} {text behind : List Char}
    {kind : TokenKind} (h : form.Reads text kind) (hbehind : kind.Stops behind) :
    ∃ piece : PieceKind, piece.token? = some kind ∧
      MiniLang.pieces (text ++ behind) = ⟨piece, text⟩ :: MiniLang.pieces behind := by
  by_cases hform : form = .number
  · subst hform
    cases h with
    | @number digits hne hdigits =>
        obtain ⟨c, rest, rfl⟩ := List.exists_cons_of_ne_nil hne
        obtain ⟨hdigit, hrest⟩ := List.forall_mem_cons.mp hdigits
        refine ⟨numberKind (c :: rest), numberKind_token? _, ?_⟩
        rw [List.cons_append, MiniLang.pieces]
        simp only [firstPiece_digits hdigit hrest hbehind, List.take_left, List.drop_left]
  · have hlexeme := h.isLexeme hform
    have hspelling : kind.spelling.toList = text :=
      hlexeme.spelling (by rw [h.form?_eq]; simpa using hform)
    refine ⟨.token kind, rfl, ?_⟩
    rw [← hspelling]
    exact pieces_spelling hlexeme.spelled hbehind

/-- A text has one form, and says what its token is. -/
theorem LexemeForm.Reads.unique {form other : LexemeForm} {text : List Char}
    {kind kind' : TokenKind} (h : form.Reads text kind) (h' : other.Reads text kind') :
    other = form ∧ kind' = kind := by
  obtain ⟨piece, hpiece, halone⟩ := h.pieces kind.stops_nil
  obtain ⟨piece', hpiece', halone'⟩ := h'.pieces kind'.stops_nil
  have hsame : piece' = piece := by
    rw [halone] at halone'
    exact (congrArg Piece.kind (List.cons.inj halone').1).symm
  have hkind : kind' = kind := by
    rw [hsame, hpiece] at hpiece'
    exact (Option.some.inj hpiece').symm
  refine ⟨?_, hkind⟩
  have hform := h'.form?_eq
  rw [hkind, h.form?_eq] at hform
  exact (Option.some.inj hform).symm

theorem length_le_takeWhile {p : Char → Bool} {front : List Char}
    (h : ∀ c ∈ front, p c = true) (behind : List Char) :
    front.length ≤ ((front ++ behind).takeWhile p).length := by
  rw [List.takeWhile_append_of_pos h, List.length_append]
  exact Nat.le_add_right _ _

theorem length_firstPiece_word {c : Char} (hstart : isWordStart c = true)
    (rest : List Char) :
    (firstPiece c rest).2 = (rest.takeWhile isWordPart).length := by
  obtain ⟨behind, hrest, hstop⟩ := takeWhile_splits isWordPart rest
  have hparts : ∀ part ∈ rest.takeWhile isWordPart, isWordPart part = true :=
    List.all_eq_true.mp List.all_takeWhile
  have hfirst := firstPiece_word hstart hparts hstop
  rw [← hrest] at hfirst
  rw [hfirst]

theorem length_firstPiece_digits {c : Char} (hdigit : c.isDigit = true)
    (rest : List Char) :
    (firstPiece c rest).2 = (rest.takeWhile Char.isDigit).length := by
  obtain ⟨behind, hrest, hstop⟩ := takeWhile_splits Char.isDigit rest
  have hdigits : ∀ digit ∈ rest.takeWhile Char.isDigit, digit.isDigit = true :=
    List.all_eq_true.mp List.all_takeWhile
  have hfirst := firstPiece_digits hdigit hdigits hstop
  rw [← hrest] at hfirst
  rw [hfirst]

theorem length_firstPiece_quote (rest : List Char) :
    (firstPiece '"' rest).2 = (literalTail rest).length := by
  rw [firstPiece, if_neg (by decide), if_neg (by simp), if_pos rfl]

theorem Punct.length_doubles : ∀ mark ∈ Punct.doubles, mark.spelling.length = 2 := by
  decide

theorem Punct.length_singles : ∀ mark ∈ Punct.singles, mark.spelling.length = 1 := by
  decide

/-- A text that starts with a mark of two characters is read as one. -/
theorem Punct.longest?_double {text : List Char} {mark : Punct}
    (hdouble : mark ∈ Punct.doubles) (hbegins : mark.spelling.toList <+: text) :
    ∃ longest, Punct.longest? text = some longest ∧ longest ∈ Punct.doubles := by
  have hfound : (Punct.doubles.find? fun punct =>
      punct.spelling.toList.isPrefixOf text).isSome = true :=
    List.find?_isSome.mpr ⟨mark, hdouble, List.isPrefixOf_iff_prefix.mpr hbegins⟩
  obtain ⟨longest, hlongest⟩ := Option.isSome_iff_exists.mp hfound
  refine ⟨longest, ?_, List.mem_of_find?_eq_some hlongest⟩
  rw [Punct.longest?, List.find?_append, hlongest, Option.some_or]

theorem LexemeForm.Reads.text_of_mark {form : LexemeForm} {text : List Char} {mark : Punct}
    (h : form.Reads text (.punct mark)) : text = mark.spelling.toList := by
  cases h
  rfl

/-- A mark that a text starts with is no longer than its first piece. -/
theorem length_le_firstPiece_mark {c : Char} {rest : List Char} {mark : Punct}
    (hbegins : mark.spelling.toList <+: c :: rest) :
    mark.spelling.toList.length ≤ (firstPiece c rest).2 + 1 := by
  rcases List.mem_append.mp mark.mem_all with hdouble | hsingle
  · have hlength := Punct.length_doubles mark hdouble
    obtain ⟨longest, hlongest, hmem⟩ := Punct.longest?_double hdouble hbegins
    have hlongestLength := Punct.length_doubles longest hmem
    obtain ⟨d, more, hspelling, hseparator, hhash, hquote, hdigit, hword, hslash⟩ :=
      plain_of_spelling mark
    rw [hspelling, List.cons_prefix_cons] at hbegins
    obtain rfl := hbegins.1
    -- a slash of two characters is no mark, so this is not a comment
    have hcomment : ¬ (d = '#' ∨ d = '/' ∧ rest.head? = some '/') := by
      rintro (hd | ⟨hd, -⟩)
      · exact hhash hd
      · rw [(hslash hd).1] at hdouble
        exact absurd hdouble (by decide)
    rw [firstPiece, if_neg (by simp [hseparator]), if_neg hcomment, if_neg hquote,
      if_neg (by simp [hdigit]), if_neg (by simp [hword]), hlongest, String.length_toList]
    dsimp only
    omega
  · rw [String.length_toList, Punct.length_singles mark hsingle]
    exact Nat.le_add_left 1 _

theorem length_le_firstPiece_word {c d : Char} {rest parts : List Char}
    (hstart : isWordStart d = true) (hparts : ∀ part ∈ parts, isWordPart part = true)
    (hbegins : d :: parts <+: c :: rest) :
    (d :: parts).length ≤ (firstPiece c rest).2 + 1 := by
  obtain ⟨rfl, behind, rfl⟩ := List.cons_prefix_cons.mp hbegins
  rw [length_firstPiece_word hstart, List.length_cons]
  exact Nat.succ_le_succ (length_le_takeWhile hparts behind)

/-- No lexeme of any form reaches behind the piece that is read. -/
theorem LexemeForm.Reads.length_le_firstPiece {form : LexemeForm} {text : List Char}
    {kind : TokenKind} {c : Char} {rest : List Char} (h : form.Reads text kind)
    (hbegins : text <+: c :: rest) : text.length ≤ (firstPiece c rest).2 + 1 := by
  cases h with
  | reserved word =>
      obtain ⟨d, parts, hspelling, hstart, hparts⟩ := word.spelling_parts
      rw [hspelling] at hbegins ⊢
      exact length_le_firstPiece_word hstart hparts hbegins
  | name hstart hrest _ => exact length_le_firstPiece_word hstart hrest hbegins
  | @number digits hne hdigits =>
      obtain ⟨d, digits, rfl⟩ := List.exists_cons_of_ne_nil hne
      obtain ⟨hdigit, hdigits⟩ := List.forall_mem_cons.mp hdigits
      obtain ⟨rfl, behind, rfl⟩ := List.cons_prefix_cons.mp hbegins
      rw [length_firstPiece_digits hdigit, List.length_cons]
      exact Nat.succ_le_succ (length_le_takeWhile hdigits behind)
  | @literal body hbody =>
      rw [List.cons_append, List.cons_prefix_cons] at hbegins
      obtain ⟨rfl, behind, rfl⟩ := hbegins
      rw [length_firstPiece_quote, List.append_assoc, List.singleton_append,
        hbody.literalTail_closed]
      simp
  | mark mark => exact length_le_firstPiece_mark hbegins

/-- A piece stands behind what is in front of it, and is the first one of what is left. -/
theorem firstPiece_of_mem_placePieces (before text : List Char) :
    ∀ placed ∈ placePieces (placeBehind before) (pieces text), ∃ front c rest,
      before ++ text = front ++ c :: rest ∧ placed.start = placeBehind front ∧
      placed.piece = ⟨(firstPiece c rest).1, c :: rest.take (firstPiece c rest).2⟩ := by
  induction text using pieces.induct generalizing before with
  | case1 =>
      rw [pieces]
      exact List.forall_mem_nil _
  | case2 c rest first ih =>
      rw [pieces, placePieces, after_placeBehind]
      refine List.forall_mem_cons.mpr ⟨⟨before, c, rest, rfl, rfl, rfl⟩, ?_⟩
      intro placed hplaced
      obtain ⟨front, d, more, htext, hfirst⟩ := ih _ placed hplaced
      refine ⟨front, d, more, ?_, hfirst⟩
      rw [← htext, List.append_assoc, List.cons_append, List.take_append_drop]

/-- Whether a token is an integer literal above the largest value. -/
def Token.isLarge (token : Token) : Bool :=
  match token.kind with
  | .int _ => decide (maxInt < decimalValue token.lexeme.toList)
  | _ => false

/-- The warning about an integer literal that is too large. -/
def Token.tooLarge (token : Token) : ScanIssue := ⟨.tooLarge, token.span⟩

/-- What a token is in its text, between what stands in front of it and what is left
behind it: its lexeme has exactly one form, which says what the token is, and no longer
beginning of what is left there has any form. A slash that is a token does not start a
comment. -/
structure Token.LongestBetween (token : Token) (front behind : List Char) : Prop where
  start : token.start = placeBehind front
  form : ∃ form : LexemeForm, form.Reads token.lexeme.toList token.kind ∧
    ∀ other kind, LexemeForm.Reads other token.lexeme.toList kind →
      other = form ∧ kind = token.kind
  longest : ∀ longer form kind, LexemeForm.Reads form longer kind →
    longer <+: token.lexeme.toList ++ behind → longer.length ≤ token.lexeme.toList.length
  slash : token.kind = .punct .slash → behind.head? ≠ some '/'

/-- All tokens of a scan are the longest ones in their places, and the warnings are
those about the integer literals that are too large. -/
structure Scan.ReadsLongest (outcome : Scan) (text : List Char) : Prop where
  tokens : ∀ token ∈ outcome.tokens, token.isEof = false → ∃ front behind,
    text = front ++ (token.lexeme.toList ++ behind) ∧ token.LongestBetween front behind
  large : ∀ token ∈ outcome.tokens, token.isEof = false →
    (token.tooLarge ∈ outcome.issues ↔ token.isLarge = true)
  warnings : outcome.issues.filter (·.fault.severity == .warning) =
    (outcome.tokens.filter Token.isLarge).map Token.tooLarge

/-- A comment is not read as a slash. -/
theorem firstPiece_slash {rest : List Char} {mark : Punct}
    (h : (firstPiece '/' rest).1.token? = some (.punct mark)) : rest.head? ≠ some '/' := by
  intro hnext
  rw [firstPiece, if_neg (by decide), if_pos (.inr ⟨rfl, hnext⟩)] at h
  cases h

theorem mem_wordsOf_of_mem_scan {text : String} {token : Token}
    (h : token ∈ (scan text).tokens) (hword : token.isEof = false) : token ∈ wordsOf text := by
  rw [scan_tokens, List.mem_append, List.mem_singleton] at h
  rcases h with hmem | rfl
  · exact hmem
  · cases hword

/-- A token with its lexeme is the first piece of what is left of its text. -/
theorem firstPiece_of_mem_wordsOf {text : String} :
    ∀ token ∈ wordsOf text, ∃ front c rest,
      text.toList = front ++ c :: rest ∧ token.start = placeBehind front ∧
      (firstPiece c rest).1.token? = some token.kind ∧
      token.lexeme.toList = c :: rest.take (firstPiece c rest).2 := by
  intro token htoken
  obtain ⟨⟨piece, start⟩, hplaced, hread⟩ := List.mem_filterMap.mp htoken
  obtain ⟨front, c, rest, htext, rfl, rfl⟩ :=
    firstPiece_of_mem_placePieces [] text.toList _ hplaced
  obtain ⟨kind, hkind, rfl⟩ := Option.map_eq_some_iff.mp hread
  exact ⟨front, c, rest, htext, rfl, hkind, String.toList_ofList⟩

/-- Every token of a text has its place there, and is the longest one in that place. -/
theorem longestBetween_of_mem_wordsOf {text : String} :
    ∀ token ∈ wordsOf text, ∃ front behind,
      text.toList = front ++ (token.lexeme.toList ++ behind) ∧
        token.LongestBetween front behind := by
  intro token htoken
  obtain ⟨front, c, rest, htext, hstart, hkind, hlexeme⟩ :=
    firstPiece_of_mem_wordsOf token htoken
  have hleft : token.lexeme.toList ++ rest.drop (firstPiece c rest).2 = c :: rest := by
    rw [hlexeme, List.cons_append, List.take_append_drop]
  have hlength : token.lexeme.toList.length = (firstPiece c rest).2 + 1 := by
    rw [hlexeme, List.length_cons, List.length_take_of_le (length_firstPiece_le c rest)]
  obtain ⟨form, hform⟩ := (fits_firstPiece c rest).reads hkind
  rw [← hlexeme] at hform
  refine ⟨front, rest.drop (firstPiece c rest).2, by rw [hleft, htext], ?_⟩
  exact {
    start := hstart
    form := ⟨form, hform, fun other kind hother => hform.unique hother⟩
    longest := by
      intro longer other kind hother hbegins
      rw [hleft] at hbegins
      rw [hlength]
      exact hother.length_le_firstPiece hbegins
    slash := by
      intro hslash
      rw [hslash] at hkind hform
      have hspelling : Punct.slash.spelling.toList = ['/'] := rfl
      rw [hform.text_of_mark, hspelling] at hleft
      obtain ⟨rfl, hbehind⟩ := List.cons.inj hleft
      rw [show rest.drop (firstPiece '/' rest).2 = rest from hbehind]
      exact firstPiece_slash hkind }

theorem isLarge_of_isLexeme {kind : TokenKind} {text : List Char}
    (h : IsLexeme kind text) (start : Position) :
    Token.isLarge ⟨kind, String.ofList text, start⟩ = false := by
  cases h with
  | int _ _ hsmall => simpa [Token.isLarge] using hsmall
  | _ => rfl

/-- The warning about a piece is the one about its token. -/
theorem PlacedPiece.filter_issue? {placed : PlacedPiece} {behind : List Char}
    (h : Fits placed.piece.kind placed.piece.text behind) :
    placed.issue?.filter (·.fault.severity == .warning) =
      (placed.token?.filter Token.isLarge).map Token.tooLarge := by
  obtain ⟨⟨kind, text⟩, start⟩ := placed
  dsimp only at h
  cases h with
  | @token kind _ _ h =>
      change none = (Option.filter Token.isLarge (some _)).map _
      rw [Option.filter_some, if_neg (by simp [isLarge_of_isLexeme h])]
      rfl
  | clamped _ _ hlarge =>
      have hwarn : Token.isLarge ⟨.int maxInt, String.ofList text, start⟩ = true := by
        simpa [Token.isLarge] using hlarge
      change some _ = (Option.filter Token.isLarge (some _)).map _
      rw [Option.filter_some, if_pos hwarn, Option.map_some, Token.tooLarge, Token.span,
        Token.length, String.length_ofList]
  | _ => rfl

/-- The warnings of a scan are those about its large integer literals. -/
theorem warnings_scan (text : String) :
    (scan text).issues.filter (·.fault.severity == .warning) =
      ((scan text).tokens.filter Token.isLarge).map Token.tooLarge := by
  have hissues : (scan text).issues =
      (placePieces .origin (pieces text.toList)).filterMap PlacedPiece.issue? := rfl
  have hend : [Token.eofAt (Position.origin.after text.toList)].filter Token.isLarge = [] :=
    rfl
  rw [hissues, scan_tokens, List.filter_append, hend, List.append_nil, wordsOf,
    List.filter_filterMap, List.filter_filterMap, List.map_filterMap]
  refine List.filterMap_congr fun placed hplaced => ?_
  have hpiece : placed.piece ∈ pieces text.toList := by
    rw [← map_piece_placePieces .origin (pieces text.toList)]
    exact List.mem_map_of_mem hplaced
  obtain ⟨behind, hfits⟩ := fits_of_mem_pieces placed.piece hpiece
  exact PlacedPiece.filter_issue? hfits

/-- No two tokens of a text cover the same stretch. -/
theorem eq_of_span_eq {text : String} {token other : Token} (h : token ∈ wordsOf text)
    (hother : other ∈ wordsOf text) (hspan : token.span = other.span) : token = other := by
  have hdistinct : ((wordsOf text).map Token.start).Nodup :=
    List.pairwise_map.mpr ((wordsOf_ascend text).imp Position.Before.ne)
  exact List.inj_on_of_nodup_map hdistinct h hother (congrArg Span.start hspan)

/-- A token is warned about exactly if it is a literal above the largest value. -/
theorem tooLarge_mem_issues {text : String} {token : Token} (h : token ∈ wordsOf text) :
    token.tooLarge ∈ (scan text).issues ↔ token.isLarge = true := by
  have hwarning : token.tooLarge ∈ (scan text).issues ↔
      token.tooLarge ∈ ((scan text).tokens.filter Token.isLarge).map Token.tooLarge := by
    rw [← warnings_scan, List.mem_filter]
    exact (and_iff_left rfl).symm
  rw [hwarning, List.mem_map]
  constructor
  · rintro ⟨other, hother, hsame⟩
    obtain ⟨hmem, hlarge⟩ := List.mem_filter.mp hother
    have hword : other.isEof = false := by
      rw [Token.isEof, beq_eq_false_iff_ne]
      intro heof
      rw [Token.isLarge, heof] at hlarge
      cases hlarge
    have hspan : other.span = token.span := congrArg ScanIssue.span hsame
    rw [← eq_of_span_eq (mem_wordsOf_of_mem_scan hmem hword) h hspan]
    exact hlarge
  · intro hlarge
    have hmem : token ∈ (scan text).tokens := by
      rw [scan_tokens]
      exact List.mem_append_left _ h
    exact ⟨token, List.mem_filter.mpr ⟨hmem, hlarge⟩, rfl⟩

/-- Every token of a text is the longest one in its place, of exactly one form, and the
warnings are those about the integer literals that are too large. -/
theorem scan_readsLongest (text : String) : (scan text).ReadsLongest text.toList := by
  exact {
    tokens := fun token htoken hword =>
      longestBetween_of_mem_wordsOf token (mem_wordsOf_of_mem_scan htoken hword)
    large := fun token htoken hword =>
      tooLarge_mem_issues (mem_wordsOf_of_mem_scan htoken hword)
    warnings := warnings_scan text }

end MiniLang

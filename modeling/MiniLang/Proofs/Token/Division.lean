/-
What a text is divided into: separators, comments, the lexemes of tokens, and stretches
that are discarded. Every piece has the form that its kind asks for.
-/
import MiniLang.Proofs.Token.Spelling

namespace MiniLang

/-- Whether a line ends in front of a text. -/
def EndsLine (behind : List Char) : Prop := ∀ c ∈ behind.head?, c = '\n'

/-- What may stand between the quotes of a string literal: characters of the line, and
backslashes with the characters that they consume. No quote stands there by itself. The
flag tells whether all consumed characters are known. -/
inductive LiteralBody : List Char → Bool → Prop where
  | nil : LiteralBody [] true
  | plain {c : Char} {rest : List Char} {known : Bool} (hnewline : c ≠ '\n')
      (hquote : c ≠ '"') (hbackslash : c ≠ '\\') (hrest : LiteralBody rest known) :
      LiteralBody (c :: rest) known
  | escape {c : Char} {rest : List Char} {known : Bool} (hnewline : c ≠ '\n')
      (hrest : LiteralBody rest known) :
      LiteralBody ('\\' :: c :: rest)
        (decide (c ∈ ['n', 't', '\'', '"', '?', '\\']) && known)

/-- What the token of a lexeme is. -/
inductive IsLexeme : TokenKind → List Char → Prop where
  | keyword (word : Keyword) : IsLexeme (.keyword word) word.spelling.toList
  | punct (mark : Punct) : IsLexeme (.punct mark) mark.spelling.toList
  | ident {c : Char} {rest : List Char} (hstart : isWordStart c = true)
      (hrest : ∀ part ∈ rest, isWordPart part = true)
      (hword : Keyword.ofSpelling? (String.ofList (c :: rest)) = none) :
      IsLexeme (.ident (String.ofList (c :: rest))) (c :: rest)
  | int {digits : List Char} (hne : digits ≠ [])
      (hdigits : ∀ digit ∈ digits, digit.isDigit = true)
      (hsmall : (decimalValue digits : Int) ≤ maxInt) :
      IsLexeme (.int (decimalValue digits)) digits
  | str {body : List Char} (hbody : LiteralBody body true) :
      IsLexeme (.str (String.ofList ('"' :: body ++ ['"']))) ('"' :: body ++ ['"'])

/-- Whether nothing of the language starts with the first character of a text: no
separator, comment, word, literal, operator or punctuation mark. -/
structure StartsNothing (c : Char) (behind : List Char) : Prop where
  separator : isSeparator c = false
  comment : c ≠ '#'
  literal : c ≠ '"'
  digit : c.isDigit = false
  word : isWordStart c = false
  punct : ∀ mark : Punct, ¬ mark.spelling.toList <+: c :: behind

/-- Whether a stretch of a text is a piece of a kind, in front of the rest of the text. A
comment reaches to the end of its line. A discarded stretch is an illegal character, a
string literal with an unknown escape, or one without a closing quote, which reaches to
the end of its line. -/
inductive Fits : PieceKind → List Char → List Char → Prop where
  | blank {c : Char} {behind : List Char} (h : c ∈ [' ', '\t', '\r', '\n']) :
      Fits .blank [c] behind
  | hash {rest behind : List Char} (hline : '\n' ∉ rest) (hend : EndsLine behind) :
      Fits .comment ('#' :: rest) behind
  | slashes {rest behind : List Char} (hline : '\n' ∉ rest) (hend : EndsLine behind) :
      Fits .comment ('/' :: '/' :: rest) behind
  | token {kind : TokenKind} {text behind : List Char} (h : IsLexeme kind text) :
      Fits (.token kind) text behind
  | clamped {digits behind : List Char} (hne : digits ≠ [])
      (hdigits : ∀ digit ∈ digits, digit.isDigit = true)
      (hlarge : maxInt < decimalValue digits) : Fits .clamped digits behind
  | illegal {c : Char} {behind : List Char} (h : StartsNothing c behind) :
      Fits (.rejected (.illegal c)) [c] behind
  | badEscape {body behind : List Char} (hbody : LiteralBody body false) :
      Fits (.rejected .badEscape) ('"' :: body ++ ['"']) behind
  | unterminated {body behind : List Char} {known : Bool}
      (hbody : LiteralBody body known) (hend : EndsLine behind) :
      Fits (.rejected (.unterminated known)) ('"' :: body) behind
  | backslash {body behind : List Char} {known : Bool}
      (hbody : LiteralBody body known) (hend : EndsLine behind) :
      Fits (.rejected (.unterminated false)) ('"' :: body ++ ['\\']) behind

/-- What stands behind the characters that pass a test starts with one that fails it. -/
theorem takeWhile_splits (p : Char → Bool) (rest : List Char) :
    ∃ behind, rest = rest.takeWhile p ++ behind ∧ ∀ c ∈ behind.head?, p c = false := by
  refine ⟨rest.dropWhile p, List.takeWhile_append_dropWhile.symm, ?_⟩
  intro c hc
  have hstop := List.head?_dropWhile_not p rest
  rw [hc] at hstop
  exact hstop

theorem endsLine_nil : EndsLine [] := by simp [EndsLine]

theorem endsLine_newline (rest : List Char) : EndsLine ('\n' :: rest) := by
  simp [EndsLine]

theorem endsLine_of_stop {behind : List Char}
    (h : ∀ c ∈ behind.head?, (c != '\n') = false) : EndsLine behind := by
  intro c hc
  simpa using h c hc

theorem newline_notMem_takeWhile (rest : List Char) :
    '\n' ∉ rest.takeWhile (· != '\n') := by
  intro h
  exact absurd (List.all_eq_true.mp List.all_takeWhile _ h) (by decide)

theorem LiteralBody.newline_notMem {body : List Char} {known : Bool}
    (h : LiteralBody body known) : '\n' ∉ body := by
  induction h with
  | nil => exact List.not_mem_nil
  | plain hnewline _ _ _ ih => simp [hnewline.symm, ih]
  | escape hnewline _ ih => simp [hnewline.symm, ih]

/-- A text behind an opening quote, read up to the end of the literal. -/
inductive ReadsLiteral : List Char → LiteralTail → Prop where
  | closed {body behind : List Char} {known : Bool} (hbody : LiteralBody body known) :
      ReadsLiteral (body ++ '"' :: behind) ⟨body.length + 1, true, known⟩
  | unclosed {body behind : List Char} {known : Bool} (hbody : LiteralBody body known)
      (hend : EndsLine behind) : ReadsLiteral (body ++ behind) ⟨body.length, false, known⟩
  | backslash {body behind : List Char} {known : Bool} (hbody : LiteralBody body known)
      (hend : EndsLine behind) :
      ReadsLiteral (body ++ '\\' :: behind) ⟨body.length + 1, false, false⟩

theorem ReadsLiteral.plain {c : Char} {rest : List Char} {tail : LiteralTail}
    (hnewline : c ≠ '\n') (hquote : c ≠ '"') (hbackslash : c ≠ '\\')
    (h : ReadsLiteral rest tail) : ReadsLiteral (c :: rest) (tail.extend 1 true) := by
  have hcons {body : List Char} {known : Bool} (hbody : LiteralBody body known) :
      LiteralBody (c :: body) (true && known) := by
    rw [Bool.true_and]
    exact .plain hnewline hquote hbackslash hbody
  cases h with
  | closed hbody => exact .closed (hcons hbody)
  | unclosed hbody hend => exact .unclosed (hcons hbody) hend
  | backslash hbody hend => exact .backslash (hcons hbody) hend

theorem ReadsLiteral.escape {c : Char} {rest : List Char} {tail : LiteralTail}
    (hnewline : c ≠ '\n') (h : ReadsLiteral rest tail) :
    ReadsLiteral ('\\' :: c :: rest) (tail.extend 2 (isEscape c)) := by
  rw [isEscape_eq]
  cases h with
  | closed hbody => exact .closed (hbody.escape hnewline)
  | unclosed hbody hend => exact .unclosed (hbody.escape hnewline) hend
  | @backslash body behind known hbody hend =>
      rw [LiteralTail.extend, Bool.and_false]
      exact .backslash (hbody.escape hnewline) hend

/-- What the scanner reads behind an opening quote is what stands there. -/
theorem readsLiteral_literalTail (rest : List Char) :
    ReadsLiteral rest (literalTail rest) := by
  induction rest using literalTail.induct with
  | case1 => exact .unclosed .nil endsLine_nil
  | case2 rest =>
      rw [literalTail_newline]
      exact .unclosed .nil (endsLine_newline rest)
  | case3 rest =>
      rw [literalTail_quote]
      exact .closed .nil
  | case4 => exact .backslash .nil endsLine_nil
  | case5 rest => exact .backslash .nil (endsLine_newline rest)
  | case6 escaped rest hescaped _ _ ih =>
      rw [literalTail_escape hescaped]
      exact ih.escape hescaped
  | case7 c rest hnewline hquote hbackslash ih =>
      rw [literalTail_plain hnewline hquote hbackslash]
      exact ih.plain hnewline hquote hbackslash

/-- Whether a text starts with a piece of a kind, with a given number of characters
behind its first one. -/
def StartsWith (text : List Char) (first : PieceKind × Nat) : Prop :=
  ∃ front behind, text = front ++ behind ∧ front.length = first.2 + 1 ∧
    Fits first.1 front behind

theorem startsWith_comment {c : Char} {rest : List Char}
    (h : c = '#' ∨ c = '/' ∧ rest.head? = some '/') :
    StartsWith (c :: rest) (.comment, (rest.takeWhile (· != '\n')).length) := by
  obtain ⟨behind, hrest, hstop⟩ := takeWhile_splits (· != '\n') rest
  have hend := endsLine_of_stop hstop
  have hline := newline_notMem_takeWhile rest
  refine ⟨c :: rest.takeWhile (· != '\n'), behind, ?_, rfl, ?_⟩
  · rw [List.cons_append, ← hrest]
  · rcases h with rfl | ⟨rfl, hnext⟩
    · exact .hash hline hend
    · obtain ⟨rest, rfl⟩ := List.head?_eq_some_iff.mp hnext
      rw [List.takeWhile_cons_of_pos (by decide)] at hline ⊢
      exact .slashes (fun hmem => hline (List.mem_cons_of_mem _ hmem)) hend

theorem startsWith_literal (rest : List Char) :
    StartsWith ('"' :: rest)
      (literalKind ('"' :: rest.take (literalTail rest).length) (literalTail rest),
        (literalTail rest).length) := by
  have hreads := readsLiteral_literalTail rest
  generalize literalTail rest = tail at hreads
  cases hreads with
  | @closed body behind known hbody =>
      have htake : (body ++ '"' :: behind).take (body.length + 1) = body ++ ['"'] := by
        rw [List.take_length_add_append, List.take_succ_cons, List.take_zero]
      refine ⟨'"' :: body ++ ['"'], behind, by simp, by simp, ?_⟩
      dsimp only [literalKind]
      rw [htake]
      cases known with
      | true => exact .token (.str hbody)
      | false => exact .badEscape hbody
  | @unclosed body behind known hbody hend =>
      exact ⟨'"' :: body, behind, rfl, rfl, .unterminated hbody hend⟩
  | @backslash body behind known hbody hend =>
      exact ⟨'"' :: body ++ ['\\'], behind, by simp, by simp, .backslash hbody hend⟩

theorem fits_numberKind {digits behind : List Char} (hne : digits ≠ [])
    (hdigits : ∀ digit ∈ digits, digit.isDigit = true) :
    Fits (numberKind digits) digits behind := by
  rw [numberKind]
  by_cases hsmall : (decimalValue digits : Int) ≤ maxInt
  · rw [if_pos hsmall]
    exact .token (.int hne hdigits hsmall)
  · rw [if_neg hsmall]
    exact .clamped hne hdigits (Int.not_le.mp hsmall)

theorem startsWith_number {c : Char} (rest : List Char) (hdigit : c.isDigit = true) :
    StartsWith (c :: rest)
      (numberKind (c :: rest.takeWhile Char.isDigit),
        (rest.takeWhile Char.isDigit).length) := by
  obtain ⟨behind, hrest, _⟩ := takeWhile_splits Char.isDigit rest
  have hdigits : ∀ digit ∈ c :: rest.takeWhile Char.isDigit, digit.isDigit = true :=
    List.forall_mem_cons.mpr ⟨hdigit, List.all_eq_true.mp List.all_takeWhile⟩
  refine ⟨c :: rest.takeWhile Char.isDigit, behind, ?_, rfl,
    fits_numberKind (List.cons_ne_nil _ _) hdigits⟩
  rw [List.cons_append, ← hrest]

theorem Keyword.spelling_of_ofSpelling? {word : String} {keyword : Keyword}
    (h : Keyword.ofSpelling? word = some keyword) : keyword.spelling = word :=
  beq_iff_eq.mp (List.find?_some (p := fun keyword : Keyword => keyword.spelling == word) h)

theorem isLexeme_wordKind {c : Char} {rest : List Char} (hstart : isWordStart c = true)
    (hrest : ∀ part ∈ rest, isWordPart part = true) :
    IsLexeme (wordKind (String.ofList (c :: rest))) (c :: rest) := by
  rw [wordKind]
  split
  · next keyword hkeyword =>
      have hspelling : keyword.spelling.toList = c :: rest := by
        rw [Keyword.spelling_of_ofSpelling? hkeyword, String.toList_ofList]
      rw [← hspelling]
      exact .keyword keyword
  · next hword => exact .ident hstart hrest hword

theorem startsWith_word {c : Char} (rest : List Char) (hstart : isWordStart c = true) :
    StartsWith (c :: rest)
      (.token (wordKind (String.ofList (c :: rest.takeWhile isWordPart))),
        (rest.takeWhile isWordPart).length) := by
  obtain ⟨behind, hrest, _⟩ := takeWhile_splits isWordPart rest
  have hparts : ∀ part ∈ rest.takeWhile isWordPart, isWordPart part = true :=
    List.all_eq_true.mp List.all_takeWhile
  refine ⟨c :: rest.takeWhile isWordPart, behind, ?_, rfl,
    .token (isLexeme_wordKind hstart hparts)⟩
  rw [List.cons_append, ← hrest]

theorem startsWith_punct {text : List Char} {mark : Punct}
    (h : Punct.longest? text = some mark) :
    StartsWith text (.token (.punct mark), mark.spelling.length - 1) := by
  obtain ⟨behind, hbehind⟩ :=
    List.isPrefixOf_iff_prefix.mp (Punct.isPrefixOf_of_longest? h)
  refine ⟨mark.spelling.toList, behind, hbehind.symm, ?_, .token (.punct mark)⟩
  cases mark <;> rfl

theorem Punct.mem_all (mark : Punct) : mark ∈ Punct.doubles ++ Punct.singles := by
  cases mark <;> decide

theorem Punct.not_prefix_of_longest? {text : List Char} (h : Punct.longest? text = none)
    (mark : Punct) : ¬ mark.spelling.toList <+: text := by
  intro hprefix
  exact List.find?_eq_none.mp h mark mark.mem_all
    (List.isPrefixOf_iff_prefix.mpr hprefix)

/-- A text starts with the piece that is read from it. -/
theorem startsWith_firstPiece (c : Char) (rest : List Char) :
    StartsWith (c :: rest) (firstPiece c rest) := by
  unfold firstPiece
  by_cases hseparator : isSeparator c = true
  · rw [if_pos hseparator]
    refine ⟨[c], rest, rfl, rfl, .blank ?_⟩
    simpa [isSeparator, or_assoc] using hseparator
  rw [if_neg hseparator]
  by_cases hcomment : c = '#' ∨ c = '/' ∧ rest.head? = some '/'
  · rw [if_pos hcomment]
    exact startsWith_comment hcomment
  rw [if_neg hcomment]
  by_cases hquote : c = '"'
  · subst hquote
    exact startsWith_literal rest
  rw [if_neg hquote]
  by_cases hdigit : c.isDigit = true
  · rw [if_pos hdigit]
    exact startsWith_number rest hdigit
  rw [if_neg hdigit]
  by_cases hstart : isWordStart c = true
  · rw [if_pos hstart]
    exact startsWith_word rest hstart
  rw [if_neg hstart]
  cases hlongest : Punct.longest? (c :: rest) with
  | some mark => exact startsWith_punct hlongest
  | none =>
      -- all that was ruled out above is what makes the character illegal
      refine ⟨[c], rest, rfl, rfl, .illegal ?_⟩
      exact {
        separator := by simpa using hseparator
        comment := fun hc => hcomment (.inl hc)
        literal := hquote
        digit := by simpa using hdigit
        word := by simpa using hstart
        punct := Punct.not_prefix_of_longest? hlongest }

theorem fits_firstPiece (c : Char) (rest : List Char) :
    Fits (firstPiece c rest).1 (c :: rest.take (firstPiece c rest).2)
      (rest.drop (firstPiece c rest).2) := by
  obtain ⟨front, behind, htext, hlength, hfits⟩ := startsWith_firstPiece c rest
  have hfront : c :: rest.take (firstPiece c rest).2 = front := by
    rw [← List.take_succ_cons, ← hlength, htext, List.take_left]
  have hbehind : rest.drop (firstPiece c rest).2 = behind := by
    rw [← List.drop_succ_cons (a := c), ← hlength, htext, List.drop_left]
  rw [hfront, hbehind]
  exact hfits

theorem fits_of_mem_pieces {text : List Char} :
    ∀ piece ∈ pieces text, ∃ behind, Fits piece.kind piece.text behind := by
  induction text using pieces.induct with
  | case1 => simp [pieces]
  | case2 c rest first ih =>
      rw [pieces]
      exact List.forall_mem_cons.mpr ⟨⟨_, fits_firstPiece c rest⟩, ih⟩

/-- Between quotes, a literal is read to its closing quote. -/
theorem LiteralBody.literalTail_closed {body : List Char} {known : Bool}
    (h : LiteralBody body known) (behind : List Char) :
    literalTail (body ++ '"' :: behind) = ⟨body.length + 1, true, known⟩ := by
  induction h with
  | nil => exact literalTail_quote behind
  | plain hnewline hquote hbackslash _ ih =>
      rw [List.cons_append, literalTail_plain hnewline hquote hbackslash, ih,
        LiteralTail.extend, Bool.true_and]
      rfl
  | escape hnewline _ ih =>
      rw [List.cons_append, List.cons_append, literalTail_escape hnewline, ih,
        isEscape_eq]
      rfl

theorem IsLexeme.spelled {kind : TokenKind} {text : List Char} (h : IsLexeme kind text) :
    kind.Spelled := by
  cases h with
  | keyword word => trivial
  | punct mark => trivial
  | @ident c rest hstart hrest hword => exact ⟨c, rest, by simp, hstart, hrest, hword⟩
  | int _ _ hsmall => exact ⟨Int.natCast_nonneg _, hsmall⟩
  | @str body hbody =>
      refine ⟨body ++ ['"'], by simp, ?_⟩
      rw [hbody.literalTail_closed, List.length_append]
      rfl

/-- Only what is spelled is read from a text. -/
theorem Fits.spelled {kind : PieceKind} {text behind : List Char}
    (h : Fits kind text behind) {read : TokenKind} (hread : kind.token? = some read) :
    read.Spelled := by
  cases h with
  | token h =>
      obtain rfl := Option.some.inj hread
      exact h.spelled
  | clamped _ _ _ =>
      obtain rfl := Option.some.inj hread
      exact ⟨by decide, Int.le_refl _⟩
  | _ => cases hread

theorem spelled_of_mem_pieces {text : List Char} :
    ∀ piece ∈ pieces text, ∀ kind, piece.kind.token? = some kind → kind.Spelled := by
  intro piece hpiece kind hkind
  obtain ⟨behind, hfits⟩ := fits_of_mem_pieces piece hpiece
  exact hfits.spelled hkind

theorem newline_notMem_of_digits {digits : List Char}
    (hdigits : ∀ digit ∈ digits, digit.isDigit = true) : '\n' ∉ digits :=
  fun h => absurd (hdigits _ h) (by decide)

theorem IsLexeme.newline_notMem {kind : TokenKind} {text : List Char}
    (h : IsLexeme kind text) : '\n' ∉ text := by
  cases h with
  | keyword word => cases word <;> decide
  | punct mark => cases mark <;> decide
  | ident hstart hrest _ =>
      rw [List.mem_cons]
      rintro (rfl | hmem)
      · exact absurd hstart (by decide)
      · exact absurd (hrest _ hmem) (by decide)
  | int _ hdigits _ => exact newline_notMem_of_digits hdigits
  | str hbody => simp [hbody.newline_notMem]

/-- Only a separator goes on to the next line. -/
theorem Fits.newline_notMem {kind : PieceKind} {text behind : List Char}
    (h : Fits kind text behind) (hkind : kind ≠ .blank) : '\n' ∉ text := by
  cases h with
  | blank _ => exact absurd rfl hkind
  | hash hline _ => simp [hline]
  | slashes hline _ => simp [hline]
  | token h => exact h.newline_notMem
  | clamped _ hdigits _ => exact newline_notMem_of_digits hdigits
  | @illegal c _ h =>
      rw [List.mem_singleton]
      rintro rfl
      exact absurd h.separator (by decide)
  | badEscape hbody => simp [hbody.newline_notMem]
  | unterminated hbody _ => simp [hbody.newline_notMem]
  | backslash hbody _ => simp [hbody.newline_notMem]

end MiniLang

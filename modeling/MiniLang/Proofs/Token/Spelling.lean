/-
How tokens are written: the spelling of a token that was read from a text is read as
the same token again, as long as what stands behind it does not make it longer.
-/
import MiniLang.Token.Scan

namespace MiniLang

/-- Whether a name is a word that is not reserved. -/
def IsName (name : String) : Prop :=
  ∃ c rest, name.toList = c :: rest ∧ isWordStart c = true ∧
    (∀ part ∈ rest, isWordPart part = true) ∧ Keyword.ofSpelling? name = none

/-- Whether a text is a string literal with known escapes. -/
def IsLiteral (text : String) : Prop :=
  ∃ rest, text.toList = '"' :: rest ∧ literalTail rest = ⟨rest.length, true, true⟩

/-- Whether a token can be read from a text. -/
def TokenKind.Spelled : TokenKind → Prop
  | .keyword _ => True
  | .punct _ => True
  | .ident name => IsName name
  | .int value => 0 ≤ value ∧ value ≤ maxInt
  | .str text => IsLiteral text
  | .eof => False

theorem literalTail_newline (rest : List Char) :
    literalTail ('\n' :: rest) = ⟨0, false, true⟩ := by
  rw [literalTail.eq_def]
  exact if_pos rfl

theorem literalTail_quote (rest : List Char) :
    literalTail ('"' :: rest) = ⟨1, true, true⟩ := by
  rw [literalTail.eq_def]
  dsimp only
  rw [if_neg (by decide), if_pos rfl]

theorem literalTail_escape {escaped : Char} (h : escaped ≠ '\n') (rest : List Char) :
    literalTail ('\\' :: escaped :: rest) =
      (literalTail rest).extend 2 (isEscape escaped) := by
  rw [literalTail.eq_def]
  dsimp only
  rw [if_neg (by decide), if_neg (by decide), if_pos rfl, if_neg h]

theorem literalTail_plain {c : Char} (hnewline : c ≠ '\n') (hquote : c ≠ '"')
    (hbackslash : c ≠ '\\') (rest : List Char) :
    literalTail (c :: rest) = (literalTail rest).extend 1 true := by
  rw [literalTail.eq_def]
  dsimp only
  rw [if_neg hnewline, if_neg hquote, if_neg hbackslash]

/-- What belongs to a string literal does not depend on what stands behind it. -/
theorem literalTail_take {rest : List Char} (h : (literalTail rest).closed = true)
    (behind : List Char) :
    literalTail (rest.take (literalTail rest).length ++ behind) = literalTail rest := by
  induction rest using literalTail.induct with
  | case1 => exact absurd h (by simp [literalTail])
  | case2 rest => exact absurd h (by simp [literalTail_newline])
  | case3 rest => simp [literalTail_quote]
  | case4 => exact absurd h (by simp [literalTail])
  | case5 rest => exact absurd h (by simp [literalTail])
  | case6 escaped rest hescaped _ _ ih =>
      rw [literalTail_escape hescaped] at h ⊢
      rw [LiteralTail.extend, List.take_succ_cons, List.take_succ_cons, List.cons_append,
        List.cons_append, literalTail_escape hescaped, ih h]
      rfl
  | case7 c rest hnewline hquote hbackslash ih =>
      rw [literalTail_plain hnewline hquote hbackslash] at h ⊢
      rw [LiteralTail.extend, List.take_succ_cons, List.cons_append,
        literalTail_plain hnewline hquote hbackslash, ih h]
      rfl

theorem isWordPart_of_isWordStart {c : Char} (h : isWordStart c = true) :
    isWordPart c = true := by
  simp only [isWordStart, Bool.or_eq_true] at h
  simp only [isWordPart, Char.isAlphanum, Bool.or_eq_true]
  rcases h with h | h
  · exact .inl (.inl h)
  · exact .inr h

theorem isWordPart_of_isDigit {c : Char} (h : c.isDigit = true) :
    isWordPart c = true := by
  simp only [isWordPart, Char.isAlphanum, Bool.or_eq_true]
  exact .inl (.inr h)

/-- What belongs to words neither separates nor starts a comment or a literal. -/
theorem plain_of_isWordPart {c : Char} (h : isWordPart c = true) :
    isSeparator c = false ∧ c ≠ '#' ∧ c ≠ '/' ∧ c ≠ '"' := by
  refine ⟨?_, ?_, ?_, ?_⟩
  · by_cases hseparator : isSeparator c = true
    · simp only [isSeparator, Bool.or_eq_true, beq_iff_eq] at hseparator
      rcases hseparator with ((rfl | rfl) | rfl) | rfl <;> exact absurd h (by decide)
    · simpa using hseparator
  all_goals
    rintro rfl
    exact absurd h (by decide)

theorem not_isDigit_of_isWordStart {c : Char} (h : isWordStart c = true) :
    c.isDigit = false := by
  change (decide (c.val ≥ 'A'.val ∧ c.val ≤ 'Z'.val) ||
    (decide (c.val ≥ 'a'.val) && decide (c.val ≤ 'z'.val)) || c == '_') = true at h
  simp only [Bool.or_eq_true, Bool.and_eq_true, decide_eq_true_eq, beq_iff_eq] at h
  simp only [Char.isDigit, Bool.and_eq_false_iff, decide_eq_false_iff_not]
  rcases h with (⟨hletter, _⟩ | ⟨hletter, _⟩) | rfl
  · have hcode := UInt32.le_iff_toNat_le.mp hletter
    refine .inr fun hdigit => ?_
    have hbelow := UInt32.le_iff_toNat_le.mp hdigit
    simp at hcode hbelow
    omega
  · have hcode := UInt32.le_iff_toNat_le.mp hletter
    refine .inr fun hdigit => ?_
    have hbelow := UInt32.le_iff_toNat_le.mp hdigit
    simp at hcode hbelow
    omega
  · decide

theorem takeWhile_append_stop {p : Char → Bool} {front behind : List Char}
    (hfront : ∀ c ∈ front, p c = true) (hbehind : ∀ c ∈ behind.head?, p c = false) :
    (front ++ behind).takeWhile p = front := by
  rw [List.takeWhile_append_of_pos hfront]
  cases behind with
  | nil => simp
  | cons c behind =>
      rw [List.takeWhile_cons_of_neg (by simp [hbehind c (by simp)]), List.append_nil]

theorem firstPiece_word {c : Char} {rest behind : List Char}
    (hstart : isWordStart c = true) (hrest : ∀ part ∈ rest, isWordPart part = true)
    (hbehind : ∀ part ∈ behind.head?, isWordPart part = false) :
    firstPiece c (rest ++ behind) =
      (.token (wordKind (String.ofList (c :: rest))), rest.length) := by
  obtain ⟨hseparator, hhash, hslash, hquote⟩ :=
    plain_of_isWordPart (isWordPart_of_isWordStart hstart)
  rw [firstPiece, if_neg (by simp [hseparator]), if_neg (by simp [hhash, hslash]),
    if_neg hquote, if_neg (by simp [not_isDigit_of_isWordStart hstart]), if_pos hstart,
    takeWhile_append_stop hrest hbehind]

theorem firstPiece_digits {c : Char} {rest behind : List Char}
    (hdigit : c.isDigit = true) (hrest : ∀ digit ∈ rest, digit.isDigit = true)
    (hbehind : ∀ digit ∈ behind.head?, digit.isDigit = false) :
    firstPiece c (rest ++ behind) = (numberKind (c :: rest), rest.length) := by
  obtain ⟨hseparator, hhash, hslash, hquote⟩ :=
    plain_of_isWordPart (isWordPart_of_isDigit hdigit)
  rw [firstPiece, if_neg (by simp [hseparator]), if_neg (by simp [hhash, hslash]),
    if_neg hquote, if_pos hdigit, takeWhile_append_stop hrest hbehind]

theorem firstPiece_literal {rest behind : List Char}
    (htail : literalTail rest = ⟨rest.length, true, true⟩) :
    firstPiece '"' (rest ++ behind) =
      (.token (.str (String.ofList ('"' :: rest))), rest.length) := by
  have hclosed : (literalTail rest).closed = true := by rw [htail]
  have hsame := literalTail_take hclosed behind
  rw [htail, List.take_length] at hsame
  rw [firstPiece, if_neg (by decide), if_neg (by simp), if_pos rfl, hsame]
  dsimp only
  rw [List.take_left]
  rfl

/-- Whether a mark can be made longer, or into the beginning of a comment. -/
def Punct.grows : Punct → Bool
  | .plus => true
  | .minus => true
  | .slash => true
  | .bang => true
  | .less => true
  | .greater => true
  | .equal => true
  | _ => false

/-- Whether a character can make a mark longer, or into the beginning of a comment. -/
def lengthens (c : Char) : Bool := "+-/<>=".toList.contains c

theorem longest?_of_not_grows {mark : Punct} (h : mark.grows = false)
    (behind : List Char) :
    Punct.longest? (mark.spelling.toList ++ behind) = some mark := by
  cases mark <;> first | rfl | exact absurd h (by decide)

theorem longest?_of_grows {mark : Punct} (h : mark.grows = true) {behind : List Char}
    (hbehind : ∀ c ∈ behind.head?, lengthens c = false) :
    Punct.longest? (mark.spelling.toList ++ behind) = some mark := by
  cases behind with
  | nil => cases mark <;> rfl
  | cons c behind =>
      have hne : ∀ d, lengthens d = true → d ≠ c := by
        rintro d hd rfl
        exact absurd hd (by simp [hbehind d (by simp)])
      cases mark <;> first
        | exact absurd h (by decide)
        | simp [Punct.longest?, Punct.doubles, Punct.singles, Punct.spelling,
            List.isPrefixOf, hne '+' rfl, hne '-' rfl, hne '<' rfl, hne '>' rfl,
            hne '=' rfl]

theorem plain_of_spelling (mark : Punct) :
    ∃ c rest, mark.spelling.toList = c :: rest ∧ isSeparator c = false ∧ c ≠ '#' ∧
      c ≠ '"' ∧ c.isDigit = false ∧ isWordStart c = false ∧
      (c = '/' → mark = .slash ∧ rest = []) := by
  cases mark <;> exact ⟨_, _, rfl, by decide, by decide, by decide, by decide, by decide,
    by decide⟩

theorem firstPiece_punct (mark : Punct) {behind : List Char}
    (hbehind : mark.grows = true → ∀ c ∈ behind.head?, lengthens c = false) :
    ∃ c rest, mark.spelling.toList = c :: rest ∧
      firstPiece c (rest ++ behind) = (.token (.punct mark), rest.length) := by
  obtain ⟨c, rest, hspelling, hseparator, hhash, hquote, hdigit, hword, hslash⟩ :=
    plain_of_spelling mark
  have hlongest : Punct.longest? (c :: (rest ++ behind)) = some mark := by
    rw [← List.cons_append, ← hspelling]
    cases hgrows : mark.grows with
    | true => exact longest?_of_grows hgrows (hbehind hgrows)
    | false => exact longest?_of_not_grows hgrows behind
  have hcomment : ¬ (c = '#' ∨ c = '/' ∧ (rest ++ behind).head? = some '/') := by
    rintro (hc | ⟨hc, hnext⟩)
    · exact hhash hc
    · obtain ⟨rfl, rfl⟩ := hslash hc
      exact absurd (hbehind rfl '/' hnext) (by decide)
  refine ⟨c, rest, hspelling, ?_⟩
  rw [firstPiece, if_neg (by simp [hseparator]), if_neg hcomment, if_neg hquote,
    if_neg (by simp [hdigit]), if_neg (by simp [hword]), hlongest]
  dsimp only
  rw [← String.length_toList, hspelling, List.length_cons, Nat.add_sub_cancel]

/-- Whether a text behind a token does not make the token longer. -/
def TokenKind.Stops : TokenKind → List Char → Prop
  | .keyword _, behind => ∀ c ∈ behind.head?, isWordPart c = false
  | .ident _, behind => ∀ c ∈ behind.head?, isWordPart c = false
  | .int _, behind => ∀ c ∈ behind.head?, c.isDigit = false
  | .punct mark, behind =>
      mark.grows = true → ∀ c ∈ behind.head?, lengthens c = false
  | _, _ => True

theorem TokenKind.stops_nil (kind : TokenKind) : kind.Stops [] := by
  cases kind <;> simp [TokenKind.Stops]

theorem Keyword.spelling_parts (word : Keyword) :
    ∃ c rest, word.spelling.toList = c :: rest ∧ isWordStart c = true ∧
      ∀ part ∈ rest, isWordPart part = true := by
  have hword : ∃ c rest, word.spelling.toList = c :: rest ∧ isWordStart c = true ∧
      rest.all isWordPart = true := by
    cases word <;> exact ⟨_, _, rfl, by decide, by decide⟩
  obtain ⟨c, rest, hspelling, hstart, hall⟩ := hword
  exact ⟨c, rest, hspelling, hstart, List.all_eq_true.mp hall⟩

theorem firstPiece_keyword (word : Keyword) {behind : List Char}
    (hbehind : ∀ part ∈ behind.head?, isWordPart part = false) :
    ∃ c rest, word.spelling.toList = c :: rest ∧
      firstPiece c (rest ++ behind) = (.token (.keyword word), rest.length) := by
  obtain ⟨c, rest, hspelling, hstart, hrest⟩ := word.spelling_parts
  refine ⟨c, rest, hspelling, ?_⟩
  rw [firstPiece_word hstart hrest hbehind, ← hspelling, String.ofList_toList, wordKind,
    Keyword.ofSpelling?_spelling]

theorem firstPiece_int {value : Int} (hnonneg : 0 ≤ value) (hsmall : value ≤ maxInt)
    {behind : List Char} (hbehind : ∀ c ∈ behind.head?, c.isDigit = false) :
    ∃ c rest, (toString value).toList = c :: rest ∧
      firstPiece c (rest ++ behind) = (.token (.int value), rest.length) := by
  obtain ⟨n, rfl⟩ := Int.eq_ofNat_of_zero_le hnonneg
  have hspelling : (toString (n : Int)).toList = Nat.toDigits 10 n := Nat.toList_repr
  have hdigits : ∀ c ∈ Nat.toDigits 10 n, c.isDigit = true :=
    fun c hc => Nat.isDigit_of_mem_toDigits (by decide) (by decide) hc
  have hvalue : decimalValue (Nat.toDigits 10 n) = n := by
    rw [decimalValue, ← Nat.ofDigitChars_eq_foldl, Nat.ofDigitChars_ten_toDigits]
  cases hcases : Nat.toDigits 10 n with
  | nil => exact absurd hcases Nat.toDigits_ne_nil
  | cons c rest =>
      rw [hcases] at hspelling hdigits hvalue
      refine ⟨c, rest, hspelling, ?_⟩
      rw [firstPiece_digits (hdigits c (by simp))
        (fun digit hdigit => hdigits digit (by simp [hdigit])) hbehind, numberKind,
        hvalue]
      exact congrArg (·, rest.length) (if_pos hsmall)

/-- A spelled token is the first piece of a text that starts with it. -/
theorem pieces_spelling {kind : TokenKind} (h : kind.Spelled) {behind : List Char}
    (hbehind : kind.Stops behind) :
    pieces (kind.spelling.toList ++ behind) =
      ⟨.token kind, kind.spelling.toList⟩ :: pieces behind := by
  have hfirst : ∃ c rest, kind.spelling.toList = c :: rest ∧
      firstPiece c (rest ++ behind) = (.token kind, rest.length) := by
    cases kind with
    | keyword word => exact firstPiece_keyword word hbehind
    | punct mark => exact firstPiece_punct mark hbehind
    | int value => exact firstPiece_int h.1 h.2 hbehind
    | eof => exact absurd h id
    | ident name =>
        obtain ⟨c, rest, hname, hstart, hrest, hkeyword⟩ := h
        refine ⟨c, rest, hname, ?_⟩
        rw [firstPiece_word hstart hrest hbehind, ← hname, String.ofList_toList,
          wordKind, hkeyword]
    | str text =>
        obtain ⟨rest, htext, htail⟩ := h
        refine ⟨'"', rest, htext, ?_⟩
        rw [firstPiece_literal htail, ← htext, String.ofList_toList]
  obtain ⟨c, rest, hspelling, hfirst⟩ := hfirst
  rw [hspelling, List.cons_append, pieces]
  simp only [hfirst, List.take_left, List.drop_left]

end MiniLang

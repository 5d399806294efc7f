/-
Carets stand below words. An excerpt shows the line of an error without the blanks at its
ends, and no end of a word is blank, so trimming moves a word and the carets alike. Main
statement: below the excerpt of every error of names or of syntax, the carets underline
the name or the token that the error is about.
-/
import MiniLang.Proofs.Grammar.Twins
import MiniLang.Proofs.Grammar.Words
import MiniLang.Proofs.Report.Excerpts
import MiniLang.Proofs.Token.Lexemes
import Mathlib

namespace MiniLang

/-- Whether a text begins and ends with characters that are not blank. -/
structure Solid (text : List Char) : Prop where
  starts : ∃ c rest, text = c :: rest ∧ isBlank c = false
  ends : ∃ front c, text = front ++ [c] ∧ isBlank c = false

section Solid

theorem solid_of_forall {text : List Char} (hne : text ≠ [])
    (h : ∀ c ∈ text, isBlank c = false) : Solid text where
  starts := by
    obtain ⟨c, rest, rfl⟩ := List.exists_cons_of_ne_nil hne
    exact ⟨c, rest, rfl, h c List.mem_cons_self⟩
  ends := ⟨text.dropLast, text.getLast hne, (List.dropLast_append_getLast hne).symm,
    h _ (List.getLast_mem hne)⟩

theorem solid_of_all {text : List Char} (hne : text ≠ [])
    (h : text.all (fun c => !isBlank c) = true) : Solid text :=
  solid_of_forall hne fun c hc => by simpa using List.all_eq_true.mp h c hc

theorem LexemeForm.Reads.solid {form : LexemeForm} {text : List Char} {kind : TokenKind}
    (h : form.Reads text kind) : Solid text := by
  cases h with
  | reserved word =>
      exact solid_of_all (by cases word <;> decide) (by cases word <;> decide)
  | mark mark =>
      exact solid_of_all (by cases mark <;> decide) (by cases mark <;> decide)
  | name hstart hrest _ =>
      refine solid_of_forall (List.cons_ne_nil _ _) (List.forall_mem_cons.mpr ⟨?_, ?_⟩)
      · exact not_isBlank_of_isWordPart (isWordPart_of_isWordStart hstart)
      · exact fun part hpart => not_isBlank_of_isWordPart (hrest part hpart)
  | number hne hdigits =>
      exact solid_of_forall hne fun digit hdigit =>
        not_isBlank_of_isWordPart (isWordPart_of_isDigit (hdigits digit hdigit))
  | @literal body _ =>
      exact ⟨⟨'"', body ++ ['"'], rfl, by decide⟩, ⟨'"' :: body, '"', rfl, by decide⟩⟩

theorem LexemeForm.Reads.name_eq {form : LexemeForm} {text : List Char} {name : String}
    (h : form.Reads text (.ident name)) : name.toList = text := by
  cases h
  exact String.toList_ofList

variable {text : List Char} (h : Solid text) (before behind : List Char)

include h

theorem Solid.trimLeft_append :
    trimLeft (before ++ (text ++ behind)) = trimLeft before ++ (text ++ behind) := by
  obtain ⟨c, rest, rfl, hc⟩ := h.starts
  have hstays : trimLeft (c :: rest ++ behind) = c :: rest ++ behind :=
    List.dropWhile_cons_of_neg (by simp [hc])
  rw [trimLeft, List.dropWhile_append]
  split
  · next hempty =>
      rw [trimLeft, List.isEmpty_iff.mp hempty]
      exact hstays
  · rfl

theorem Solid.trimRight_append :
    trimRight (before ++ (text ++ behind)) = before ++ (text ++ trimRight behind) := by
  obtain ⟨front, c, rfl, hc⟩ := h.ends
  rw [List.append_assoc, List.singleton_append, ← List.append_assoc, trimRight,
    dropRightWhile_append_cons hc, trimRight]
  simp

end Solid

theorem exists_trimLeft (text : List Char) :
    ∃ cut, text = cut ++ trimLeft text ∧ ∀ c ∈ cut, isBlank c = true :=
  ⟨text.takeWhile isBlank, List.takeWhile_append_dropWhile.symm,
    fun _ hc => List.mem_takeWhile_imp hc⟩

theorem exists_trimRight (text : List Char) :
    ∃ cut, text = trimRight text ++ cut ∧ ∀ c ∈ cut, isBlank c = true := by
  obtain ⟨cut, hcut, hblank⟩ := exists_trimLeft text.reverse
  refine ⟨cut.reverse, ?_, fun c hc => hblank c (List.mem_reverse.mp hc)⟩
  have htext := congrArg List.reverse hcut
  rwa [List.reverse_reverse, List.reverse_append] at htext

/-- A line is shown with a solid text moved to the left by what is cut off there. -/
theorem excerptOfLine_eq {text : List Char} (h : Solid text) (before behind : List Char)
    {span : Span} (hcolumn : span.start.column = before.length + 1)
    (hwidth : span.width = text.length) :
    excerptOfLine (before ++ (text ++ behind)) span =
      String.ofList ("    ".toList ++ (trimLeft before ++ (text ++ trimRight behind))
        ++ "\n    ".toList ++ List.replicate (trimLeft before).length ' '
        ++ List.replicate text.length '^') := by
  obtain ⟨cut, hcut, _⟩ := exists_trimLeft before
  have hoffset : span.start.column - 1 - ((before ++ (text ++ behind)).length -
      (trimLeft before ++ (text ++ behind)).length) = (trimLeft before).length := by
    have hlength := congrArg List.length hcut
    rw [List.length_append] at hlength
    simp only [List.length_append]
    omega
  unfold excerptOfLine
  simp only [h.trimLeft_append, h.trimRight_append, hoffset, hwidth]

/-- No line of a document goes over a newline. -/
theorem Document.newline_notMem {doc : Document} {count : Nat} {line : List Char}
    (h : doc.line? count = some line) : '\n' ∉ line := by
  cases count with
  | zero => cases h
  | succ n =>
      rw [doc.line?_eq] at h
      obtain ⟨whole, hfound, rfl⟩ := Option.map_eq_some_iff.mp h
      have hwhole := List.mem_of_getElem? hfound
      intro hmem
      rw [dropRightWhile, List.mem_reverse] at hmem
      have hinside := (List.dropWhile_sublist _).mem hmem
      exact newline_notMem_of_mem_splitOn hwhole (List.mem_reverse.mp hinside)

/-- How an excerpt underlines a text. It shows a line of the document without `left` and
`right`, which are blank. What it shows has the text behind `before`, and below that there
is a caret for every character of the text, in the same columns. -/
structure Document.Underlining (doc : Document) (span : Span) (text : String) where
  left : List Char
  before : List Char
  behind : List Char
  right : List Char
  line : doc.line? span.start.line =
    some (left ++ (before ++ (text.toList ++ behind)) ++ right)
  column : span.start.column = (left ++ before).length + 1
  blank : ∀ c ∈ left ++ right, isBlank c = true
  alone : '\n' ∉ before ++ (text.toList ++ behind)
  excerpt : doc.excerpt span =
    String.ofList ("    ".toList ++ (before ++ (text.toList ++ behind))
      ++ "\n    ".toList ++ List.replicate before.length ' '
      ++ List.replicate text.length '^')

/-- Whether the carets below the excerpt of a stretch stand below a text, one below each
character. -/
def Document.Underlines (doc : Document) (span : Span) (text : String) : Prop :=
  Nonempty (doc.Underlining span text)

section Words

variable {doc : Document} {tokens : List Token}

/-- The line of a token is the lexeme of the token between what stands in front of the
column of the token and what is left behind it. -/
theorem Token.StandsIn.split {token : Token} {line : List Char} (h : token.StandsIn line)
    (hne : token.lexeme.toList ≠ []) : ∃ before behind,
      line = before ++ (token.lexeme.toList ++ behind) ∧
        token.start.column = before.length + 1 := by
  obtain ⟨hcolumn, hstands⟩ := h
  refine ⟨line.take (token.start.column - 1),
    (line.drop (token.start.column - 1)).drop token.length, ?_, ?_⟩
  · rw [← hstands, List.take_append_drop, List.take_append_drop]
  · have hinside : token.start.column - 1 < line.length := by
      refine Nat.lt_of_not_le fun hpast => hne ?_
      rw [← hstands, List.drop_eq_nil_of_le hpast, List.take_nil]
    rw [List.length_take]
    omega

/-- The excerpt of a token underlines the lexeme of the token. -/
theorem Document.underlines_word {token : Token} (h : token ∈ wordsOf doc.text) :
    doc.Underlines token.span token.lexeme := by
  obtain ⟨_, _, _, hlongest⟩ := longestBetween_of_mem_wordsOf token h
  obtain ⟨_, hform, _⟩ := hlongest.form
  have hsolid := hform.solid
  obtain ⟨c, rest, hlexeme, _⟩ := hsolid.starts
  obtain ⟨line, hline, hstands⟩ := Document.line?_of_mem_wordsOf h
  obtain ⟨before, behind, rfl, hcolumn⟩ :=
    hstands.split (by rw [hlexeme]; exact List.cons_ne_nil c rest)
  have hwidth : token.span.width = token.lexeme.toList.length := by
    rw [Token.span, Span.width_ofLength, Token.length, ← String.length_toList, hlexeme,
      List.length_cons]
    omega
  have hexcerpt := excerptOfLine_eq hsolid before behind hcolumn hwidth
  obtain ⟨left, hleft, hleftBlank⟩ := exists_trimLeft before
  obtain ⟨right, hright, hrightBlank⟩ := exists_trimRight behind
  have hwhole : before ++ (token.lexeme.toList ++ behind) = left ++ (trimLeft before ++
      (token.lexeme.toList ++ trimRight behind)) ++ right := by
    conv_lhs => rw [hleft, hright]
    simp only [List.append_assoc]
  exact ⟨{
    left, right
    before := trimLeft before
    behind := trimRight behind
    line := hline.trans (congrArg some hwhole)
    column := by rw [← hleft]; exact hcolumn
    blank := List.forall_mem_append.mpr ⟨hleftBlank, hrightBlank⟩
    alone := by
      have hnone := Document.newline_notMem hline
      rw [hwhole] at hnone
      exact fun hmem => hnone (List.mem_append_left _ (List.mem_append_right _ hmem))
    excerpt := by
      rw [Document.excerpt, show doc.line? token.span.start.line = _ from hline]
      exact hexcerpt }⟩

/-- A name of a program is the lexeme of a token of the document, in the same place. -/
theorem Document.Offers.exists_word (h : doc.Offers tokens) {program : Program}
    {rest : List Token} (hprogram : Parser.program tokens = .ok program rest) {id : Ident}
    (hid : Leaf.name id ∈ program.leaves) :
    ∃ token ∈ wordsOf doc.text, id.span = token.span ∧ id.name = token.lexeme := by
  obtain ⟨part, hderives, rfl⟩ := Parser.sound_program _ _ _ hprogram
  rw [hderives.leaves] at hid
  obtain ⟨token, htoken, hleaf⟩ := List.mem_filterMap.mp hid
  have hstands := Token.standsFor_of_leaf? hleaf
  have hkind : token.kind = .ident id.name := hstands.word.symm
  have hword : token ∈ wordsOf doc.text :=
    mem_wordsOf_of_mem_scan (h.suffix.subset (List.mem_append_left rest htoken))
      (by simp [Token.isEof, hkind])
  obtain ⟨_, _, _, hlongest⟩ := longestBetween_of_mem_wordsOf token hword
  obtain ⟨_, hform, _⟩ := hlongest.form
  rw [hkind] at hform
  exact ⟨token, hword, hstands.place, String.toList_inj.mp hform.name_eq⟩

/-- The excerpt of an error of names underlines the name. -/
theorem Document.Offers.underlines_name (h : doc.Offers tokens) {program : Program}
    {rest : List Token} (hprogram : Parser.program tokens = .ok program rest) :
    ∀ error ∈ program.resolve.errors, doc.Underlines error.span error.name := by
  intro error herror
  obtain ⟨id, hid, hname, hspan⟩ := program.errors_at_names error herror
  obtain ⟨token, htoken, hplace, hlexeme⟩ := h.exists_word hprogram hid
  rw [hspan, hplace, hname, hlexeme]
  exact doc.underlines_word htoken

end Words

/-- Whether an error of syntax is about a token of a document, and its excerpt underlines
the token if that is not the end of the file. -/
structure Document.Marks (doc : Document) (error : SyntaxError) : Prop where
  place : ∃ token ∈ (scan doc.text).tokens, error.span = token.span
  word : ∀ token ∈ (scan doc.text).tokens, token.isEof = false →
    error.span = token.span → doc.Underlines error.span token.lexeme

section Syntax

variable {doc : Document} {tokens : List Token}

/-- The tokens of a document next to themselves. -/
def Document.twins (doc : Document) : Twins where
  tokens := (scan doc.text).tokens
  others := (scan doc.text).tokens
  kinds := rfl
  closed := closeTokens_scan doc.text ▸ closed_closeTokens _

theorem Document.Offers.abreast (h : doc.Offers tokens) : doc.twins.Abreast tokens tokens := by
  induction h with
  | start =>
      obtain ⟨token, rest, hcons⟩ := doc.twins.closed.exists_cons
      rw [closeTokens_scan]
      exact ⟨0, by rw [hcons]; exact Nat.succ_pos _, rfl, rfl⟩
  | program _ ih => exact (doc.twins.program _ _ ih).abreast
  | expr _ ih => exact (doc.twins.expr _ _ ih).abreast

theorem Document.marks_of_samePlace {error : SyntaxError}
    (h : SamePlace doc.twins.tokens doc.twins.others error.span error.span) :
    doc.Marks error where
  place := by
    obtain ⟨_, token, _, htoken, _, hspan, _⟩ := h
    exact ⟨token, List.mem_of_getElem? htoken, hspan⟩
  word token htoken hword hspan := by
    rw [hspan]
    exact doc.underlines_word (mem_wordsOf_of_mem_scan htoken hword)

end Syntax

/-- Whether the excerpts of the errors in a document underline what the errors are about.
This holds of whatever a parser of the document is asked for, also behind an error. -/
structure Document.Underlined (doc : Document) : Prop where
  nameError : ∀ tokens program rest, doc.Offers tokens →
    Parser.program tokens = .ok program rest →
    ∀ error ∈ program.resolve.errors, doc.Underlines error.span error.name
  programError : ∀ tokens error rest, doc.Offers tokens →
    Parser.program tokens = .error error rest → doc.Marks error
  exprError : ∀ tokens error rest, doc.Offers tokens →
    Parser.expr tokens = .error error rest → doc.Marks error

/-- In every document, the carets underline the name of each error of names, and the token
of each error of syntax that is not at the end of the file. -/
theorem Document.underlined (doc : Document) : doc.Underlined where
  nameError _ _ _ hoffers hprogram := hoffers.underlines_name hprogram
  programError tokens error rest hoffers herror := by
    have hsame := doc.twins.program _ _ hoffers.abreast
    rw [herror] at hsame
    exact Document.marks_of_samePlace hsame.samePlace
  exprError tokens error rest hoffers herror := by
    have hsame := doc.twins.expr _ _ hoffers.abreast
    rw [herror] at hsame
    exact Document.marks_of_samePlace hsame.samePlace

/-- A name that is declared twice, in a line that starts with blanks. -/
theorem Document.underlined_duplicate : ∃ program rest,
    Parser.program (closeTokens (scan "int x;\n\t int x; \r\n").tokens) = .ok program rest ∧
    program.resolve.errors = [⟨.duplicateDeclaration, "x", Span.ofLength ⟨2, 7⟩ 1⟩] ∧
    (Document.ofText "int x;\n\t int x; \r\n").Underlines (Span.ofLength ⟨2, 7⟩ 1) "x" := by
  let declaration (line column : Nat) : Decl :=
    .var .int ⟨"x", Span.ofLength ⟨line, column⟩ 1, none⟩
  have hread : Parser.program (closeTokens (scan "int x;\n\t int x; \r\n").tokens) =
      .ok ⟨[declaration 1 5, declaration 2 7]⟩ [Token.eofAt ⟨3, 1⟩] := by cbv
  have herrors : (Program.mk [declaration 1 5, declaration 2 7]).resolve.errors =
      [⟨.duplicateDeclaration, "x", Span.ofLength ⟨2, 7⟩ 1⟩] := by cbv
  refine ⟨_, _, hread, herrors, ?_⟩
  exact (Document.ofText "int x;\n\t int x; \r\n").underlined.nameError _ _ _ .start hread
    ⟨.duplicateDeclaration, "x", Span.ofLength ⟨2, 7⟩ 1⟩ (by rw [herrors]; simp)

/-- A name in a line that is shown without the blanks at its ends. -/
example :
    ((Document.ofText "f()\n \t  x = 1; \r\n").excerpt (Span.ofLength ⟨2, 5⟩ 1)).toList =
      "    x = 1;\n    ^".toList := rfl

end MiniLang

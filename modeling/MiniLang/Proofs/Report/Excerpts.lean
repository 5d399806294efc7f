/-
Places and lines agree. What a scan, a parser or the resolution of names finds in a document
starts on a line of it, and a diagnostic is shown with that line.
-/
import MiniLang.Proofs.Grammar.Blame
import MiniLang.Proofs.Report.Coherence
import MiniLang.Proofs.Resolution.Traversal
import MiniLang.Proofs.Source.Lines

namespace MiniLang

/-- The tokens that a parser of a document may have in front of it: all tokens of the
document, and those that reading a program or an expression leaves, whether that fails or
not. -/
inductive Document.Offers (doc : Document) : List Token → Prop where
  | start : doc.Offers (closeTokens (scan doc.text).tokens)
  | program {tokens : List Token} (h : doc.Offers tokens) :
      doc.Offers (tokensLeft (Parser.program tokens))
  | expr {tokens : List Token} (h : doc.Offers tokens) :
      doc.Offers (tokensLeft (Parser.expr tokens))

section Offers

variable {doc : Document} {tokens : List Token}

theorem Document.shows_origin (doc : Document) : doc.Shows (.point .origin) := by
  have hcount := doc.lineCount_eq
  exact ⟨Nat.le_refl 1, by change 1 ≤ doc.lineCount; omega⟩

theorem closeTokens_scan (text : String) :
    closeTokens (scan text).tokens = (scan text).tokens := by
  rw [scan_tokens, closeTokens_append_eof rfl]

/-- What a parser of a document has in front of it is an end of the tokens of the
document. -/
theorem Document.Offers.suffix (h : doc.Offers tokens) : tokens <:+ (scan doc.text).tokens := by
  induction h with
  | start =>
      rw [closeTokens_scan]
  | @program tokens _ ih => exact (Parser.takesFront_program tokens).trans ih
  | @expr tokens _ ih => exact (Parser.takesFront_expr tokens).trans ih

theorem Document.Offers.shows (h : doc.Offers tokens) :
    ∀ token ∈ tokens, doc.Shows token.span := by
  induction h with
  | start =>
      rw [closeTokens_scan]
      exact fun token htoken => Document.shows_token htoken
  | program _ ih => exact (Parser.Blames.program doc.shows_origin _ ih).1
  | expr _ ih => exact (Parser.Blames.expr doc.shows_origin _ ih).1

/-- A name of a program stands where one of the tokens of the program does. -/
theorem exists_token_of_name {program : Program} {rest : List Token}
    (h : Parser.program tokens = .ok program rest) {id : Ident}
    (hid : Leaf.name id ∈ program.leaves) : ∃ token ∈ tokens, id.span = token.span := by
  obtain ⟨part, hderives, rfl⟩ := Parser.sound_program _ _ _ h
  rw [hderives.leaves] at hid
  obtain ⟨token, htoken, hleaf⟩ := List.mem_filterMap.mp hid
  exact ⟨token, List.mem_append_left rest htoken, Token.span_of_leaf? hleaf⟩

/-- The errors of names in a program that was read are shown. -/
theorem Document.Offers.shows_nameError (h : doc.Offers tokens) {program : Program}
    {rest : List Token} (hprogram : Parser.program tokens = .ok program rest) :
    ∀ error ∈ program.resolve.errors, doc.Shows error.span := by
  intro error herror
  obtain ⟨id, hid, _, hspan⟩ := program.errors_at_names error herror
  obtain ⟨token, htoken, hplace⟩ := exists_token_of_name hprogram hid
  rw [hspan, hplace]
  exact h.shows token htoken

end Offers

/-- Whether the places of what is found in a document agree with its lines. A token has its
characters in its columns of its line; the end of the file is on the last line. All issues
of the scan, syntax errors and errors of names start on a line. -/
structure Document.Placed (doc : Document) : Prop where
  token : ∀ token ∈ (scan doc.text).tokens, ∃ line,
    doc.line? token.start.line = some line ∧ (token.isEof = false → token.StandsIn line)
  eof : ∀ token ∈ (scan doc.text).tokens, token.isEof = true →
    token.start.line = doc.lineCount
  issue : ∀ issue ∈ (scan doc.text).issues, doc.Shows issue.span
  programError : ∀ tokens error rest, doc.Offers tokens →
    Parser.program tokens = .error error rest → doc.Shows error.span
  exprError : ∀ tokens error rest, doc.Offers tokens →
    Parser.expr tokens = .error error rest → doc.Shows error.span
  nameError : ∀ tokens program rest, doc.Offers tokens →
    Parser.program tokens = .ok program rest →
    ∀ error ∈ program.resolve.errors, doc.Shows error.span

theorem Document.placed (doc : Document) : doc.Placed where
  token token htoken := by
    rw [scan_tokens, List.mem_append, List.mem_singleton] at htoken
    rcases htoken with hword | rfl
    · obtain ⟨line, hline, hstands⟩ := Document.line?_of_mem_wordsOf hword
      exact ⟨line, hline, fun _ => hstands⟩
    · have hshows : doc.Shows (Token.eofAt (Position.origin.after doc.text.toList)).span :=
        Document.shows_token (by rw [scan_tokens]; simp)
      obtain ⟨line, hline⟩ := Option.isSome_iff_exists.mp (doc.line?_isSome_iff.mpr hshows)
      exact ⟨line, hline, fun heof => absurd heof Bool.true_eq_false.mp⟩
  eof token htoken heof := by
    rw [scan_tokens, List.mem_append, List.mem_singleton] at htoken
    rcases htoken with hword | rfl
    · rw [not_isEof_of_mem_wordsOf token hword] at heof
      cases heof
    · exact Document.line_eof
  issue _ hissue := Document.shows_issue hissue
  programError tokens error rest hoffers herror :=
    (Parser.Blames.program doc.shows_origin _ hoffers.shows).2 error rest herror
  exprError tokens error rest hoffers herror :=
    (Parser.Blames.expr doc.shows_origin _ hoffers.shows).2 error rest herror
  nameError _ _ _ hoffers hprogram := hoffers.shows_nameError hprogram

section Check

variable {doc : Document} {result : CheckResult}

theorem Parser.answer_eq_ok {α : Type} {p : Parser α} {tokens : List Token} {answer : α}
    (h : p.answer tokens = .ok answer) : ∃ rest, p tokens = .ok answer rest := by
  rw [Parser.answer, EStateM.run] at h
  cases hresult : p tokens with
  | ok other rest =>
      rw [hresult] at h
      exact ⟨rest, congrArg (EStateM.Result.ok · rest) (Except.ok.inj h)⟩
  | error error rest =>
      rw [hresult] at h
      cases h

theorem Parser.answer_eq_error {α : Type} {p : Parser α} {tokens : List Token}
    {error : SyntaxError} (h : p.answer tokens = .error error) :
    ∃ rest, p tokens = .error error rest := by
  rw [Parser.answer, EStateM.run] at h
  cases hresult : p tokens with
  | ok answer rest =>
      rw [hresult] at h
      cases h
  | error other rest =>
      rw [hresult] at h
      exact ⟨rest, congrArg (EStateM.Result.error · rest) (Except.error.inj h)⟩

/-- A diagnostic starts where its finding does. -/
theorem CheckResult.shows_diagnostics
    (hissues : ∀ issue ∈ result.issues, doc.Shows issue.span)
    (hparsed : ∀ error, result.syntaxError? = some error → doc.Shows error.span)
    (hnames : ∀ error ∈ result.nameErrors, doc.Shows error.span) :
    ∀ diagnostic ∈ result.diagnostics, doc.Shows diagnostic.span := by
  refine List.forall_mem_append.mpr ⟨List.forall_mem_append.mpr ⟨?_, ?_⟩, ?_⟩
  · exact List.forall_mem_map.mpr hissues
  · intro diagnostic hdiagnostic
    rw [Option.mem_toList, Option.map_eq_some_iff] at hdiagnostic
    obtain ⟨error, herror, rfl⟩ := hdiagnostic
    exact hparsed error herror
  · exact List.forall_mem_map.mpr hnames

theorem Document.excerpt_of_shows {span : Span} (h : doc.Shows span) :
    ∃ line, doc.line? span.start.line = some line ∧
      doc.excerpt span = excerptOfLine line span := by
  obtain ⟨line, hline⟩ := Option.isSome_iff_exists.mp (doc.line?_isSome_iff.mpr h)
  refine ⟨line, hline, ?_⟩
  rw [Document.excerpt, hline]

/-- What a check finds starts on a line of the document. -/
theorem Document.shows_check (doc : Document) : ∃ result, doc.check = .ok result ∧
    ∀ diagnostic ∈ result.diagnostics, doc.Shows diagnostic.span := by
  have hissues : ∀ issue ∈ (scan doc.text).issues, doc.Shows issue.span := doc.placed.issue
  cases hparse : parseTokens (scan doc.text).tokens with
  | error error =>
      obtain ⟨rest, hrest⟩ := Parser.answer_eq_error hparse
      refine ⟨_, Document.check_of_syntaxError hparse,
        CheckResult.shows_diagnostics hissues ?_ (List.forall_mem_nil _)⟩
      rintro _ ⟨⟩
      exact doc.placed.programError _ _ _ .start hrest
  | ok program =>
      obtain ⟨rest, hrest⟩ := Parser.answer_eq_ok hparse
      obtain ⟨names, hnames⟩ := Program.resolvable_of_parse hparse
      have herrors : ∀ error ∈ program.resolve.errors, doc.Shows error.span :=
        doc.placed.nameError _ _ _ .start hrest
      refine ⟨_, Document.check_of_parse hparse hnames,
        CheckResult.shows_diagnostics hissues ?_ ?_⟩
      · exact fun _ hnone => absurd hnone nofun
      · exact herrors

/-- Places and lines agree: what is found in a document is where its place says, and every
diagnostic of a check is shown with a line of the document. -/
theorem Document.check_excerpts (doc : Document) :
    doc.Placed ∧ ∃ result, doc.check = .ok result ∧
      ∀ diagnostic ∈ result.diagnostics, ∃ line,
        doc.line? diagnostic.span.start.line = some line ∧
          doc.excerpt diagnostic.span = excerptOfLine line diagnostic.span := by
  obtain ⟨result, hcheck, hshows⟩ := doc.shows_check
  exact ⟨doc.placed, result, hcheck, fun diagnostic hdiagnostic =>
    Document.excerpt_of_shows (hshows diagnostic hdiagnostic)⟩

end Check

end MiniLang

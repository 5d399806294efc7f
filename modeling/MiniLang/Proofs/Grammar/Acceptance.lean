/-
The language of the grammar: what the parser accepts are the programs, and it answers
the tree of the one derivation that a program has.
-/
import MiniLang.Proofs.Grammar.Hereditary
import MiniLang.Proofs.Grammar.Unambiguity
import MiniLang.Proofs.Token.Tokens

namespace MiniLang

/-- Whether a derivation derives the end of the file nowhere. -/
def Derivation.Inside (part : Derivation) : Prop :=
  ∀ token ∈ part.tokens, token.kind ≠ .eof

theorem hereditary_inside : Hereditary Derivation.Inside where
  leaf token heof _ := by
    simpa [Derivation.Inside] using heof
  loc h := by
    cases h with
    | access hword haccesses =>
        intro token htoken
        simp only [Derivation.tokens_node, List.flatMap_cons, Derivation.tokens_leaf,
          List.flatMap_assoc, List.cons_append, List.nil_append, List.mem_cons,
          List.mem_flatMap, FieldAccess.parts, List.flatMap_nil, List.not_mem_nil,
          or_false] at htoken
        rcases htoken with rfl | ⟨access, haccess, rfl | rfl⟩
        · simp [hword]
        · simp [(haccesses access haccess).1]
        · simp [(haccesses access haccess).2]
  node h token htoken := by
    rw [Derivation.tokens_node] at htoken
    obtain ⟨part, hpart, hmem⟩ := List.mem_flatMap.mp htoken
    exact h part hpart token hmem

/-- A repetition ends where its step answers that there is nothing more. -/
theorem Parser.collect_ends {α : Type} {step : Parser (Option α)}
    (hfront : Parser.TakesFront step) (hconsumes : Parser.Consumes (·.isSome) step)
    {tokens rest : List Token} {items : List α}
    (h : Parser.collect step tokens = .ok items rest) :
    ∃ before, step before = .ok none rest := by
  induction hlength : tokens.length using Nat.strongRecOn
    generalizing tokens items with
  | ind length ih =>
    rw [Parser.collect_eq hfront hconsumes, Parser.round, Parser.bind_eq_ok_iff] at h
    obtain ⟨first, middle, hstep, hmore⟩ := h
    cases first with
    | none =>
        obtain ⟨rfl, rfl⟩ := Parser.pure_eq_ok_iff.mp hmore
        exact ⟨tokens, hstep⟩
    | some item =>
        obtain ⟨others, last, hothers, hpure⟩ := Parser.bind_eq_ok_iff.mp hmore
        obtain ⟨rfl, rfl⟩ := Parser.pure_eq_ok_iff.mp hpure
        have hshorter := hconsumes tokens (some item) middle hstep rfl
        exact ih middle.length (by omega) hothers rfl

theorem Parser.program_ends {tokens rest : List Token} {program : Program}
    (h : Parser.program tokens = .ok program rest) : (nextToken rest).isEof = true := by
  obtain ⟨decls, middle, hdecls, hpure⟩ := Parser.bind_eq_ok_iff.mp h
  obtain ⟨rfl, rfl⟩ := Parser.pure_eq_ok_iff.mp hpure
  obtain ⟨before, hend⟩ := Parser.collect_ends Parser.takesFront_decl?
    Parser.consumes_decl? hdecls
  obtain ⟨heof, rfl⟩ := Parser.decl?_eq_none_iff.mp hend
  exact heof

theorem closeTokens_append_eof {tokens : List Token} {last : Token}
    (hlast : last.isEof = true) : closeTokens (tokens ++ [last]) = tokens ++ [last] := by
  simp [closeTokens, hlast]

/-- In front of the end of the file, the parser answers the trees of the derivations. -/
theorem parseTokens_eq_ok_iff {tokens : List Token} {last : Token}
    (htokens : ∀ token ∈ tokens, token.isEof = false) (hlast : last.isEof = true)
    {program : Program} :
    parseTokens (tokens ++ [last]) = .ok program ↔
      ∃ part, DerivesProgram part program ∧ part.tokens = tokens := by
  rw [parseTokens, closeTokens_append_eof hlast, Parser.answer]
  constructor
  · intro h
    cases hrun : Parser.program.run (tokens ++ [last]) with
    | error error rest =>
        rw [hrun] at h
        exact absurd h (by simp)
    | ok answer rest =>
        rw [hrun] at h
        obtain rfl : answer = program := by simpa using h
        obtain ⟨part, hpart, hsplit⟩ := Parser.sound_program _ _ _ hrun
        have heof := Parser.program_ends hrun
        refine ⟨part, hpart, ?_⟩
        rcases List.append_eq_append_iff.mp hsplit with
          ⟨behind, hbehind, hlastSplit⟩ | ⟨behind, rfl, rfl⟩
        · cases behind with
          | nil => simpa using hbehind
          | cons token behind =>
              have hmem : last ∈ part.tokens := by
                rw [hbehind]
                have hnil : token = last ∧ behind ++ rest = [] := by
                  simpa using hlastSplit.symm
                simp [hnil.1]
              exact absurd (beq_iff_eq.mp hlast)
                (hereditary_inside.program hpart last hmem)
        · cases behind with
          | nil => simp
          | cons token behind =>
              have hno := htokens token (by simp)
              rw [List.cons_append, nextToken_cons, hno] at heof
              exact absurd heof (by simp)
  · rintro ⟨part, hpart, rfl⟩
    have hread := hpart.reads [last] hlast
    rw [show Parser.program.run (part.tokens ++ [last]) = .ok program [last] from hread]

/-- A text is a program when a derivation has its words. -/
theorem parseTokens_scan_iff {source : String} {program : Program} :
    parseTokens (scan source).tokens = .ok program ↔
      ∃ part, DerivesProgram part program ∧ part.tokens = wordsOf source := by
  rw [scan_tokens]
  exact parseTokens_eq_ok_iff not_isEof_of_mem_wordsOf rfl

/-- The parser accepts the programs of the grammar and nothing else, and every program
has one derivation, whose tree is the answer. -/
theorem parseTokens_accepts_grammar (tokens : List Token) (last : Token)
    (htokens : ∀ token ∈ tokens, token.isEof = false) (hlast : last.isEof = true) :
    (∀ program, parseTokens (tokens ++ [last]) = .ok program ↔
      ∃ part, DerivesProgram part program ∧ part.tokens = tokens) ∧
    ∀ part part' program program', DerivesProgram part program → part.tokens = tokens →
      DerivesProgram part' program' → part'.tokens = tokens →
      part = part' ∧ program = program' := by
  refine ⟨fun program => parseTokens_eq_ok_iff htokens hlast, ?_⟩
  intro part part' program program' hpart hpartTokens hpart' hpartTokens'
  have hread : parseTokens (tokens ++ [last]) = .ok program :=
    (parseTokens_eq_ok_iff htokens hlast).mpr ⟨part, hpart, hpartTokens⟩
  have hread' : parseTokens (tokens ++ [last]) = .ok program' :=
    (parseTokens_eq_ok_iff htokens hlast).mpr ⟨part', hpart', hpartTokens'⟩
  have hsame : [part].flatMap Derivation.tokens ++ [last] =
      [part'].flatMap Derivation.tokens ++ [last] := by
    simp [hpartTokens, hpartTokens']
  obtain ⟨hparts, _⟩ := hpart.parted hpart' [last] [last] hlast hlast hsame
  have htrees : Except.ok program = Except.ok program' := hread.symm.trans hread'
  exact ⟨by simpa using hparts, by simpa using htrees⟩

theorem parseTokens_accepts_grammar_var :
    ∃ part, DerivesProgram part ⟨[.var .int ⟨"x", Span.ofLength ⟨1, 5⟩ 1, none⟩]⟩ ∧
      part.tokens = [⟨.keyword .int, "int", ⟨1, 1⟩⟩, ⟨.ident "x", "x", ⟨1, 5⟩⟩,
        ⟨.punct .semicolon, ";", ⟨1, 6⟩⟩] := by
  have haccepts := parseTokens_accepts_grammar
    [⟨.keyword .int, "int", ⟨1, 1⟩⟩, ⟨.ident "x", "x", ⟨1, 5⟩⟩,
      ⟨.punct .semicolon, ";", ⟨1, 6⟩⟩] (Token.eofAt ⟨1, 7⟩) (by decide) rfl
  exact (haccepts.1 _).mp rfl

end MiniLang

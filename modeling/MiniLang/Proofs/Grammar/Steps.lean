/-
What the smallest parsers answer: each one gives its answer exactly on the lists that
start with the tokens it takes.
-/
import MiniLang.Grammar.Progress
import MiniLang.Proofs.Grammar.Derivation

namespace MiniLang

variable {α β : Type}

theorem Parser.bind_eq_ok_iff {p : Parser α} {f : α → Parser β}
    {tokens rest : List Token} {answer : β} :
    (p >>= f) tokens = .ok answer rest ↔
      ∃ first middle, p tokens = .ok first middle ∧
        f first middle = .ok answer rest := by
  constructor
  · intro h
    cases hp : p tokens with
    | ok first middle =>
        exact ⟨first, middle, rfl, (Parser.bind_of_ok hp).symm.trans h⟩
    | error error middle =>
        rw [Parser.bind_of_error hp] at h
        exact absurd h (by simp)
  · rintro ⟨first, middle, hp, hf⟩
    rw [Parser.bind_of_ok hp, hf]

@[simp] theorem Parser.pure_eq_ok_iff {answer first : α} {tokens rest : List Token} :
    (pure first : Parser α) tokens = .ok answer rest ↔
      first = answer ∧ tokens = rest := by
  simp only [pure, EStateM.pure, EStateM.Result.ok.injEq]

@[simp] theorem Parser.throw_ne_ok {error : SyntaxError} {answer : α}
    {tokens rest : List Token} :
    (throw error : Parser α) tokens ≠ .ok answer rest := by
  intro h
  change EStateM.Result.error error tokens = _ at h
  cases h

theorem Parser.peek_bind {f : Token → Parser α} {tokens : List Token} :
    (Parser.peek >>= f) tokens = f (nextToken tokens) tokens := rfl

theorem Parser.peekAt_bind {offset : Nat} {f : TokenKind → Parser α}
    {tokens : List Token} :
    (Parser.peekAt offset >>= f) tokens =
      f (nextToken (tokens.drop offset)).kind tokens := rfl

theorem Parser.sees_bind {mark : Punct} {f : Bool → Parser α}
    {tokens : List Token} :
    (Parser.sees mark >>= f) tokens =
      f ((nextToken tokens).kind == .punct mark) tokens := rfl

theorem Parser.advance_bind {f : Unit → Parser α} {tokens : List Token} :
    (Parser.advance >>= f) tokens = f () (afterNext tokens) := rfl

@[simp] theorem Parser.failHere_ne_ok {fault : SyntaxFault} {answer : α}
    {tokens rest : List Token} :
    (Parser.failHere fault : Parser α) tokens ≠ .ok answer rest := by
  simp [Parser.failHere, Parser.peek_bind]

@[simp] theorem Parser.unexpected_ne_ok {wanted : Wanted} {answer : α}
    {tokens rest : List Token} :
    (Parser.unexpected wanted : Parser α) tokens ≠ .ok answer rest := by
  simp [Parser.unexpected, Parser.peek_bind]

@[simp] theorem nextToken_cons (token : Token) (rest : List Token) :
    nextToken (token :: rest) = token := rfl

theorem afterNext_cons {token : Token} (h : token.kind ≠ .eof) (rest : List Token) :
    afterNext (token :: rest) = rest := by
  simp [afterNext, Token.isEof, h]

/-- A token that is not the end of the file stands in the list. -/
theorem eq_cons_of_nextToken {tokens : List Token} {kind : TokenKind}
    (h : (nextToken tokens).kind = kind) (hkind : kind ≠ .eof) :
    ∃ token rest, tokens = token :: rest ∧ token.kind = kind := by
  cases tokens with
  | nil => exact absurd h.symm hkind
  | cons token rest => exact ⟨token, rest, rfl, h⟩

theorem Parser.expect_eq_ok_iff {mark : Punct} {context : String}
    {tokens rest : List Token} {answer : Unit} :
    Parser.expect mark context tokens = .ok answer rest ↔
      ∃ token, tokens = token :: rest ∧ token.kind = .punct mark := by
  rw [Parser.expect, Parser.sees_bind]
  constructor
  · intro h
    split at h
    case isTrue hmark =>
        obtain ⟨token, others, rfl, htoken⟩ :=
          eq_cons_of_nextToken (beq_iff_eq.mp hmark) (by simp)
        refine ⟨token, ?_, htoken⟩
        change EStateM.Result.ok () (afterNext (token :: others)) = _ at h
        rw [afterNext_cons (by simp [htoken])] at h
        injection h with _ hrest
        rw [hrest]
    case isFalse => exact absurd h (by simp)
  · rintro ⟨token, rfl, htoken⟩
    simp only [nextToken_cons, htoken, beq_self_eq_true, if_true]
    change EStateM.Result.ok () (afterNext (token :: rest)) = _
    rw [afterNext_cons (by simp [htoken])]

theorem Parser.ident_eq_ok_iff {tokens rest : List Token} {id : Ident} :
    Parser.ident tokens = .ok id rest ↔
      ∃ token name, tokens = token :: rest ∧ token.kind = .ident name ∧
        id = token.ident name := by
  rw [Parser.ident, Parser.peek_bind]
  constructor
  · intro h
    cases hkind : (nextToken tokens).kind with
    | ident name =>
        simp only [hkind] at h
        obtain ⟨token, others, rfl, htoken⟩ := eq_cons_of_nextToken hkind (by simp)
        rw [Parser.advance_bind, afterNext_cons (by simp [htoken]),
          Parser.pure_eq_ok_iff] at h
        exact ⟨token, name, by rw [h.2], htoken, h.1.symm⟩
    | _ => simp [hkind] at h
  · rintro ⟨token, name, rfl, htoken, rfl⟩
    simp only [nextToken_cons, htoken]
    rw [Parser.advance_bind, afterNext_cons (by simp [htoken])]
    rfl

/-- A type is what the grammar derives as one, whatever stands behind it. -/
theorem Parser.type_eq_ok_iff {tokens rest : List Token} {type : TypeNode} :
    Parser.type tokens = .ok type rest ↔
      ∃ part, DerivesType part type ∧ tokens = part.tokens ++ rest := by
  rw [Parser.type, Parser.peek_bind]
  constructor
  · intro h
    cases hkind : (nextToken tokens).kind with
    | keyword word =>
        obtain ⟨token, others, rfl, htoken⟩ := eq_cons_of_nextToken hkind (by simp)
        have hnext : afterNext (token :: others) = others :=
          afterNext_cons (by simp [htoken]) others
        cases word with
        | int =>
            simp only [hkind, Parser.advance_bind, hnext, Parser.pure_eq_ok_iff] at h
            obtain ⟨rfl, rfl⟩ := h
            exact ⟨_, .int htoken, by simp⟩
        | bool =>
            simp only [hkind, Parser.advance_bind, hnext, Parser.pure_eq_ok_iff] at h
            obtain ⟨rfl, rfl⟩ := h
            exact ⟨_, .bool htoken, by simp⟩
        | void =>
            simp only [hkind, Parser.advance_bind, hnext, Parser.pure_eq_ok_iff] at h
            obtain ⟨rfl, rfl⟩ := h
            exact ⟨_, .void htoken, by simp⟩
        | struct =>
            simp only [hkind, Parser.advance_bind, hnext, Parser.bind_eq_ok_iff] at h
            obtain ⟨id, middle, hid, hpure⟩ := h
            obtain ⟨word, name, rfl, hword, rfl⟩ := Parser.ident_eq_ok_iff.mp hid
            obtain ⟨rfl, rfl⟩ := Parser.pure_eq_ok_iff.mp hpure
            exact ⟨_, .struct htoken hword, by simp⟩
        | _ => simp [htoken] at h
    | _ => simp [hkind] at h
  · rintro ⟨part, hpart, rfl⟩
    cases hpart with
    | int htoken | bool htoken | void htoken =>
        simp [htoken, Parser.advance_bind, afterNext_cons]
    | @struct token word name htoken hword =>
        have hid : Parser.ident (word :: rest) = .ok (word.ident name) rest :=
          Parser.ident_eq_ok_iff.mpr ⟨word, name, rfl, hword, rfl⟩
        simp only [Derivation.tokens_node, List.flatMap_cons, List.flatMap_nil,
          Derivation.tokens_leaf, List.cons_append, List.nil_append, nextToken_cons,
          htoken, Parser.advance_bind]
        rw [afterNext_cons (by simp [htoken]), Parser.bind_of_ok hid]
        rfl

end MiniLang

/-
Progress of parsers: they take tokens from the front of a list only, and what is
repeated takes one at least. Main statements: a parser whose body makes progress is
what the body says, and so is repetition.
-/
import MiniLang.Grammar.Parser

namespace MiniLang

variable {α β : Type}

/-- The tokens that are left, whether an answer was given or not. -/
def tokensLeft : EStateM.Result SyntaxError (List Token) α → List Token
  | .ok _ rest => rest
  | .error _ rest => rest

/-- What a parser leaves is an end of what it was given. -/
def Parser.TakesFront (p : Parser α) : Prop :=
  ∀ tokens, tokensLeft (p tokens) <:+ tokens

/-- A parser takes a token at least whenever it gives an answer that counts. -/
def Parser.Consumes (counts : α → Prop) (p : Parser α) : Prop :=
  ∀ tokens answer rest, p tokens = .ok answer rest → counts answer →
    rest.length < tokens.length

/-- Two parsers say the same about all lists below a length. -/
def Parser.AgreeBelow (n : Nat) (p q : Parser α) : Prop :=
  ∀ tokens : List Token, tokens.length < n → p tokens = q tokens

/-- A body makes progress if what it says of a list depends only on what its parser
says of shorter lists. -/
def Parser.Progressive (body : Parser α → Parser α) : Prop :=
  (∀ p, Parser.TakesFront p → Parser.TakesFront (body p)) ∧
    ∀ n p q, Parser.TakesFront p → Parser.TakesFront q →
      Parser.AgreeBelow n p q → Parser.AgreeBelow (n + 1) (body p) (body q)

theorem Parser.takesFront_pure (answer : α) :
    Parser.TakesFront (pure answer : Parser α) :=
  fun tokens => List.suffix_refl tokens

theorem Parser.takesFront_throw (error : SyntaxError) :
    Parser.TakesFront (throw error : Parser α) :=
  fun tokens => List.suffix_refl tokens

theorem Parser.bind_of_ok {p : Parser α} {f : α → Parser β}
    {tokens rest : List Token} {answer : α} (h : p tokens = .ok answer rest) :
    (p >>= f) tokens = f answer rest := by
  simp only [bind, EStateM.bind, h]

theorem Parser.bind_of_error {p : Parser α} {f : α → Parser β}
    {tokens rest : List Token} {error : SyntaxError}
    (h : p tokens = .error error rest) :
    (p >>= f) tokens = .error error rest := by
  simp only [bind, EStateM.bind, h]

theorem Parser.takesFront_bind {p : Parser α} {f : α → Parser β}
    (hp : Parser.TakesFront p) (hf : ∀ answer, Parser.TakesFront (f answer)) :
    Parser.TakesFront (p >>= f) := by
  intro tokens
  have hrest := hp tokens
  cases hresult : p tokens with
  | ok answer rest =>
      rw [hresult] at hrest
      rw [Parser.bind_of_ok hresult]
      exact (hf answer rest).trans hrest
  | error error rest =>
      rw [hresult] at hrest
      rw [Parser.bind_of_error hresult]
      exact hrest

theorem Parser.takesFront_nested {body : Parser α → Parser α}
    (hbody : Parser.Progressive body) (depth : Nat) :
    Parser.TakesFront (Parser.nested body depth) := by
  induction depth with
  | zero => exact hbody.1 _ (Parser.takesFront_throw _)
  | succ depth ih => exact hbody.1 _ ih

theorem Parser.takesFront_fix {body : Parser α → Parser α}
    (hbody : Parser.Progressive body) : Parser.TakesFront (Parser.fix body) :=
  fun tokens => Parser.takesFront_nested hbody tokens.length tokens

/-- More depth than there are tokens makes no difference. -/
theorem Parser.nested_agree {body : Parser α → Parser α}
    (hbody : Parser.Progressive body) (m n : Nat) (hmn : m ≤ n) :
    Parser.AgreeBelow (m + 1) (Parser.nested body m) (Parser.nested body n) := by
  induction m generalizing n with
  | zero =>
      have hnone : ∀ p q : Parser α, Parser.AgreeBelow 0 p q :=
        fun p q tokens htokens => absurd htokens (Nat.not_lt_zero _)
      cases n with
      | zero => exact fun tokens _ => rfl
      | succ n =>
          exact hbody.2 0 _ _ (Parser.takesFront_throw _)
            (Parser.takesFront_nested hbody n) (hnone _ _)
  | succ m ih =>
      cases n with
      | zero => exact absurd hmn (Nat.not_succ_le_zero m)
      | succ n =>
          exact hbody.2 (m + 1) _ _ (Parser.takesFront_nested hbody m)
            (Parser.takesFront_nested hbody n) (ih n (Nat.le_of_succ_le_succ hmn))

/-- A parser whose body makes progress is what the body says. -/
theorem Parser.fix_eq {body : Parser α → Parser α}
    (hbody : Parser.Progressive body) :
    Parser.fix body = body (Parser.fix body) := by
  funext tokens
  have hdepth := Parser.nested_agree hbody tokens.length (tokens.length + 1)
    (Nat.le_succ _) tokens (Nat.lt_succ_self _)
  have hshorter : Parser.AgreeBelow tokens.length
      (Parser.nested body tokens.length) (Parser.fix body) := by
    intro rest hrest
    exact (Parser.nested_agree hbody rest.length tokens.length
      (Nat.le_of_lt hrest) rest (Nat.lt_succ_self _)).symm
  exact hdepth.trans <| hbody.2 tokens.length _ _
    (Parser.takesFront_nested hbody tokens.length) (Parser.takesFront_fix hbody)
    hshorter tokens (Nat.lt_succ_self _)

/-- What a body keeps holds of parsers that say the same as its fixed point on all lists
below a length. -/
theorem Parser.exists_agreeBelow {body : Parser α → Parser α}
    (hbody : Parser.Progressive body) {P : Parser α → Prop} {base : Parser α}
    (hfront : Parser.TakesFront base) (hbase : P base)
    (hkeep : ∀ p, Parser.TakesFront p → P p → P (body p)) (n : Nat) :
    ∃ p, Parser.TakesFront p ∧ P p ∧ Parser.AgreeBelow n p (Parser.fix body) := by
  induction n with
  | zero => exact ⟨base, hfront, hbase, fun _ hnone => absurd hnone (Nat.not_lt_zero _)⟩
  | succ n ih =>
      obtain ⟨p, hp, hholds, hagree⟩ := ih
      refine ⟨body p, hbody.1 p hp, hkeep p hp hholds, ?_⟩
      have hmore := hbody.2 n p (Parser.fix body) hp (Parser.takesFront_fix hbody) hagree
      rwa [← Parser.fix_eq hbody] at hmore

theorem Parser.progressive_round {step : Parser (Option α)}
    (hfront : Parser.TakesFront step)
    (hconsumes : Parser.Consumes (·.isSome) step) :
    Parser.Progressive (Parser.round step) := by
  constructor
  · intro more hmore
    apply Parser.takesFront_bind hfront
    intro answer
    cases answer with
    | none => exact Parser.takesFront_pure []
    | some item =>
        exact Parser.takesFront_bind hmore fun _ => Parser.takesFront_pure _
  · intro n p q _ _ hagree tokens htokens
    cases hstep : step tokens with
    | error error rest =>
        rw [Parser.round, Parser.round, Parser.bind_of_error hstep,
          Parser.bind_of_error hstep]
    | ok answer rest =>
        rw [Parser.round, Parser.round, Parser.bind_of_ok hstep,
          Parser.bind_of_ok hstep]
        cases answer with
        | none => rfl
        | some item =>
            have hrest := hconsumes tokens (some item) rest hstep rfl
            have hsame : p rest = q rest := hagree rest (by omega)
            simp only [bind, EStateM.bind, hsame]

/-- A repetition whose items take a token each is a round in front of itself. -/
theorem Parser.collect_eq {step : Parser (Option α)}
    (hfront : Parser.TakesFront step)
    (hconsumes : Parser.Consumes (·.isSome) step) :
    Parser.collect step = Parser.round step (Parser.collect step) :=
  Parser.fix_eq (Parser.progressive_round hfront hconsumes)

end MiniLang

/-
Where parsers find fault: at one of the tokens that they are given. This takes no
account of what they read, so it holds for nested parsers however deep they are.
-/
import MiniLang.Proofs.Grammar.Composition

namespace MiniLang

variable {α β : Type}

/-- Whether a parser finds fault with good stretches only. In front of tokens that cover
good stretches it leaves such tokens, and when it fails, it does so at a good stretch. -/
def Parser.Blames (good : Span → Prop) (p : Parser α) : Prop :=
  ∀ tokens : List Token, (∀ token ∈ tokens, good token.span) →
    (∀ token ∈ tokensLeft (p tokens), good token.span) ∧
      ∀ error rest, p tokens = .error error rest → good error.span

section Blames

variable {good : Span → Prop}

/-- A step that gives an answer blames nothing, and leaves some of the tokens. -/
theorem Parser.Blames.of_answer {p : Parser α}
    (h : ∀ tokens, ∃ answer rest, p tokens = .ok answer rest ∧ rest ⊆ tokens) :
    Parser.Blames good p := by
  intro tokens htokens
  obtain ⟨answer, rest, hanswer, hrest⟩ := h tokens
  rw [hanswer]
  refine ⟨fun token htoken => htokens token (hrest htoken), ?_⟩
  rintro _ _ ⟨⟩

theorem Parser.Blames.pure (answer : α) :
    Parser.Blames good (Pure.pure answer : Parser α) :=
  .of_answer fun tokens => ⟨_, tokens, rfl, List.Subset.refl tokens⟩

theorem Parser.Blames.throw {error : SyntaxError} (h : good error.span) :
    Parser.Blames good (MonadExcept.throw error : Parser α) := by
  refine fun _ htokens => ⟨htokens, ?_⟩
  rintro _ _ ⟨⟩
  exact h

theorem Parser.Blames.bind {p : Parser α} {f : α → Parser β}
    (hp : Parser.Blames good p) (hf : ∀ answer, Parser.Blames good (f answer)) :
    Parser.Blames good (p >>= f) := by
  intro tokens htokens
  obtain ⟨hleft, herror⟩ := hp tokens htokens
  cases hresult : p tokens with
  | ok answer rest =>
      rw [hresult] at hleft
      rw [Parser.bind_of_ok hresult]
      exact hf answer rest hleft
  | error error rest =>
      rw [hresult] at hleft
      rw [Parser.bind_of_error hresult]
      refine ⟨hleft, ?_⟩
      rintro _ _ ⟨⟩
      exact herror error rest hresult

theorem Parser.Blames.peekAt (offset : Nat) :
    Parser.Blames good (Parser.peekAt offset) :=
  .of_answer fun tokens => ⟨_, tokens, rfl, List.Subset.refl tokens⟩

theorem Parser.Blames.advance : Parser.Blames good Parser.advance :=
  .of_answer fun tokens => ⟨_, _, rfl, (afterNext_suffix tokens).subset⟩

variable (horigin : good (.point .origin))

include horigin

/-- Behind the last token there is only the end of the file, at the origin. -/
theorem good_nextToken {tokens : List Token} (h : ∀ token ∈ tokens, good token.span) :
    good (nextToken tokens).span := by
  cases tokens with
  | nil => exact horigin
  | cons token rest => exact h token List.mem_cons_self

theorem Parser.Blames.peek {f : Token → Parser α}
    (h : ∀ token : Token, good token.span → Parser.Blames good (f token)) :
    Parser.Blames good (Parser.peek >>= f) :=
  fun tokens htokens => h _ (good_nextToken horigin htokens) tokens htokens

theorem Parser.Blames.nested {body : Parser α → Parser α}
    (hbody : Parser.Progressive body)
    (hkeep : ∀ p, Parser.TakesFront p → Parser.Blames good p → Parser.Blames good (body p))
    (depth : Nat) : Parser.Blames good (Parser.nested body depth) := by
  induction depth with
  | zero => exact hkeep _ (Parser.takesFront_throw _) (.throw horigin)
  | succ depth ih => exact hkeep _ (Parser.takesFront_nested hbody depth) ih

/-- A parser blames good stretches as what it is put together from does. -/
theorem Parser.Blames.inherited :
    Parser.Inherited (fun token => good token.span) fun _ p => Parser.Blames good p where
  pure answer := .pure answer
  throw _ _ _ htoken := .throw htoken
  peek hf := .peek horigin hf
  peekAt offset := .peekAt offset
  advance := .advance
  bind hp hf := hp.bind hf
  fix hbody hkeep tokens htokens :=
    Parser.Blames.nested horigin hbody hkeep tokens.length tokens htokens

theorem Parser.Blames.expr : Parser.Blames good Parser.expr :=
  (Parser.Blames.inherited horigin).expr

theorem Parser.Blames.program : Parser.Blames good Parser.program :=
  (Parser.Blames.inherited horigin).program

end Blames

end MiniLang

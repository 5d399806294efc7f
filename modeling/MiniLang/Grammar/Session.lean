/-
A parser that is asked more than once. It stands at a position of its tokens, and every
request goes on where the one before it stopped, whether that was answered or failed.
-/
import MiniLang.Grammar.Program

namespace MiniLang

/-- Whether a list of tokens ends with the end of the file. -/
def Closed (tokens : List Token) : Prop := ∃ last ∈ tokens.getLast?, last.isEof = true

theorem closed_append_cons {front behind : List Token} {here : Token} :
    Closed (front ++ here :: behind) ↔ Closed (here :: behind) := by
  simp [Closed, List.getLast?_append, List.getLast?_cons]

theorem Closed.exists_cons {tokens : List Token} (h : Closed tokens) :
    ∃ token rest, tokens = token :: rest := by
  cases tokens with
  | nil =>
      obtain ⟨last, hlast, _⟩ := h
      exact absurd hlast nofun
  | cons token rest => exact ⟨token, rest, rfl⟩

theorem Closed.tail {token : Token} {rest : List Token} (h : Closed (token :: rest))
    (htoken : token.isEof = false) : Closed rest := by
  cases rest with
  | nil =>
      obtain ⟨last, hlast, heof⟩ := h
      obtain rfl : token = last := Option.some.inj hlast
      rw [htoken] at heof
      cases heof
  | cons next rest =>
      change Closed ([token] ++ next :: rest) at h
      exact closed_append_cons.mp h

theorem Closed.drop {tokens : List Token} (h : Closed tokens) {start : Nat}
    (hstart : start < tokens.length) : Closed (tokens.drop start) := by
  rw [← List.take_append_drop start tokens, List.drop_eq_getElem_cons hstart] at h
  rw [List.drop_eq_getElem_cons hstart]
  exact closed_append_cons.mp h

theorem closed_closeTokens (tokens : List Token) : Closed (closeTokens tokens) := by
  unfold closeTokens
  split
  case h_1 => exact ⟨_, rfl, rfl⟩
  case h_2 last hlast =>
    split
    · exact ⟨last, hlast, ‹_›⟩
    · exact ⟨_, List.getLast?_concat, rfl⟩

/-- What a parser is asked for. -/
inductive Request where
  | program
  | expr
deriving Repr, DecidableEq

/-- What a parser answers. -/
inductive Phrase where
  | program (program : Program)
  | expr (expr : Expr)

def Request.parser : Request → Parser Phrase
  | .program => return .program (← Parser.program)
  | .expr => return .expr (← Parser.expr)

/-- What a request brings up: an answer or an error, and the position where the parser
stands then. -/
structure Reply where
  outcome : Except SyntaxError Phrase
  stop : Nat

/-- Ask a parser that stands at a position of its tokens. -/
def Request.ask (request : Request) (tokens : List Token) (start : Nat) : Reply :=
  match request.parser (tokens.drop start) with
  | .ok phrase rest => ⟨.ok phrase, tokens.length - rest.length⟩
  | .error error rest => ⟨.error error, tokens.length - rest.length⟩

/-- Ask a parser one thing after another. -/
def askAll (tokens : List Token) : List Request → Nat → List Reply
  | [], _ => []
  | request :: requests, start =>
      let reply := request.ask tokens start
      reply :: askAll tokens requests reply.stop

end MiniLang

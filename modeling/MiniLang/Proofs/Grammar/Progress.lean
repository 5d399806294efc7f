/-
Progress of the grammar: its parsers take tokens from the front only, and they come
back to themselves on shorter lists only. Main statements: expressions and blocks are
what their bodies say.
-/
import MiniLang.Proofs.Grammar.Steps

namespace MiniLang

variable {α β : Type}

/-- Two parsers that take tokens from the front only, and say the same about all
lists below a length. -/
structure Parser.Alike (n : Nat) (p q : Parser α) : Prop where
  left : Parser.TakesFront p
  right : Parser.TakesFront q
  agree : Parser.AgreeBelow n p q

theorem Parser.Alike.refl {p : Parser α} (hp : Parser.TakesFront p) (n : Nat) :
    Parser.Alike n p p :=
  ⟨hp, hp, fun _ _ => rfl⟩

theorem Parser.Alike.mono {m n : Nat} {p q : Parser α} (h : Parser.Alike n p q)
    (hmn : m ≤ n) : Parser.Alike m p q :=
  ⟨h.left, h.right, fun tokens htokens => h.agree tokens (by omega)⟩

/-- A body that keeps parsers alike, for one token more, makes progress. -/
theorem Parser.progressive_of_alike {body : Parser α → Parser α}
    (h : ∀ n p q, Parser.Alike n p q → Parser.Alike (n + 1) (body p) (body q)) :
    Parser.Progressive body := by
  constructor
  · intro p hp
    exact (h 0 p p (.refl hp 0)).left
  · intro n p q hp hq hagree
    exact (h n p q ⟨hp, hq, hagree⟩).agree

theorem Parser.length_le_of_takesFront {p : Parser α} (hp : Parser.TakesFront p)
    {tokens rest : List Token} {answer : α} (h : p tokens = .ok answer rest) :
    rest.length ≤ tokens.length := by
  have hsuffix := hp tokens
  rw [h] at hsuffix
  exact hsuffix.length_le

/-- Steps behind each other are alike if the steps are. -/
theorem Parser.Alike.bind {n : Nat} {p q : Parser α} {f g : α → Parser β}
    (hpq : Parser.Alike n p q) (hfg : ∀ answer, Parser.Alike n (f answer) (g answer)) :
    Parser.Alike n (p >>= f) (q >>= g) := by
  refine ⟨Parser.takesFront_bind hpq.left fun answer => (hfg answer).left,
    Parser.takesFront_bind hpq.right fun answer => (hfg answer).right, ?_⟩
  intro tokens htokens
  have hsame := hpq.agree tokens htokens
  cases hp : p tokens with
  | error error rest =>
      rw [Parser.bind_of_error hp, Parser.bind_of_error (hsame.symm.trans hp)]
  | ok answer rest =>
      rw [Parser.bind_of_ok hp, Parser.bind_of_ok (hsame.symm.trans hp)]
      have hrest := Parser.length_le_of_takesFront hpq.left hp
      exact (hfg answer).agree rest (by omega)

/-- Behind a step that takes a token, it is enough to be alike on shorter lists. -/
theorem Parser.Alike.bind_of_consumes {n : Nat} {p : Parser α} {f g : α → Parser β}
    (hp : Parser.TakesFront p) (hconsumes : Parser.Consumes (fun _ => True) p)
    (hfg : ∀ answer, Parser.Alike n (f answer) (g answer)) :
    Parser.Alike (n + 1) (p >>= f) (p >>= g) := by
  refine ⟨Parser.takesFront_bind hp fun answer => (hfg answer).left,
    Parser.takesFront_bind hp fun answer => (hfg answer).right, ?_⟩
  intro tokens htokens
  cases hresult : p tokens with
  | error error rest =>
      rw [Parser.bind_of_error hresult, Parser.bind_of_error hresult]
  | ok answer rest =>
      rw [Parser.bind_of_ok hresult, Parser.bind_of_ok hresult]
      have hrest := hconsumes tokens answer rest hresult trivial
      exact (hfg answer).agree rest (by omega)

theorem Parser.takesFront_peek : Parser.TakesFront Parser.peek :=
  fun tokens => List.suffix_refl tokens

theorem Parser.takesFront_peekAt (offset : Nat) :
    Parser.TakesFront (Parser.peekAt offset) :=
  fun tokens => List.suffix_refl tokens

theorem Parser.takesFront_sees (mark : Punct) :
    Parser.TakesFront (Parser.sees mark) :=
  fun tokens => List.suffix_refl tokens

theorem afterNext_suffix (tokens : List Token) : afterNext tokens <:+ tokens := by
  cases tokens with
  | nil => exact List.suffix_refl _
  | cons token rest =>
      rw [afterNext]
      split
      · exact List.suffix_refl _
      · exact List.suffix_cons token rest

theorem length_afterNext_lt {tokens : List Token}
    (h : (nextToken tokens).kind ≠ .eof) :
    (afterNext tokens).length < tokens.length := by
  cases tokens with
  | nil => exact absurd rfl h
  | cons token rest =>
      have hnext : afterNext (token :: rest) = rest := afterNext_cons h rest
      rw [hnext]
      exact Nat.lt_succ_self _

theorem Parser.takesFront_advance : Parser.TakesFront Parser.advance :=
  afterNext_suffix

theorem Parser.takesFront_failHere (fault : SyntaxFault) :
    Parser.TakesFront (Parser.failHere fault : Parser α) :=
  fun tokens => List.suffix_refl tokens

theorem Parser.takesFront_unexpected (wanted : Wanted) :
    Parser.TakesFront (Parser.unexpected wanted : Parser α) :=
  fun tokens => List.suffix_refl tokens

theorem Parser.takesFront_expect (mark : Punct) (context : String) :
    Parser.TakesFront (Parser.expect mark context) := by
  apply Parser.takesFront_bind (Parser.takesFront_sees mark)
  intro seen
  cases seen with
  | true => exact Parser.takesFront_advance
  | false => exact Parser.takesFront_unexpected _

theorem Parser.consumes_expect (mark : Punct) (context : String) :
    Parser.Consumes (fun _ => True) (Parser.expect mark context) := by
  intro tokens answer rest h _
  obtain ⟨token, rfl, _⟩ := Parser.expect_eq_ok_iff.mp h
  simp

theorem Parser.takesFront_ident : Parser.TakesFront Parser.ident := by
  apply Parser.takesFront_bind Parser.takesFront_peek
  intro token
  cases hkind : token.kind with
  | ident name =>
      simp only
      exact Parser.takesFront_bind Parser.takesFront_advance fun _ =>
        Parser.takesFront_pure _
  | _ => exact Parser.takesFront_unexpected _

theorem Parser.consumes_ident :
    Parser.Consumes (fun _ => True) Parser.ident := by
  intro tokens answer rest h _
  obtain ⟨token, name, rfl, _⟩ := Parser.ident_eq_ok_iff.mp h
  simp

theorem Parser.takesFront_accept (mark : Punct) :
    Parser.TakesFront (Parser.accept mark) := by
  apply Parser.takesFront_bind (Parser.takesFront_sees mark)
  intro seen
  cases seen with
  | true =>
      exact Parser.takesFront_bind Parser.takesFront_advance fun _ =>
        Parser.takesFront_pure _
  | false => exact Parser.takesFront_pure _

/-- A choice that never falls on the end of the file. -/
def Punctual (choose : TokenKind → Option β) : Prop := choose .eof = none

theorem punctual_chooseMark (mark : Punct) : Punctual (chooseMark mark) := by
  simp [Punctual, chooseMark]

theorem Level.punctual_of_operator? {level : Level}
    {choose : TokenKind → Option BinaryOp} (h : level.operator? = some choose) :
    Punctual choose := by
  cases level <;> cases h <;> rfl

theorem punctual_chooseRelational : Punctual chooseRelational := rfl

theorem punctual_chooseUnary : Punctual chooseUnary := rfl

theorem Parser.takesFront_after? {choose : TokenKind → Option β}
    {item : β → Parser α} (hitem : ∀ choice, Parser.TakesFront (item choice)) :
    Parser.TakesFront (Parser.after? choose item) := by
  apply Parser.takesFront_bind Parser.takesFront_peek
  intro token
  cases choose token.kind with
  | none => exact Parser.takesFront_pure none
  | some choice =>
      refine Parser.takesFront_bind Parser.takesFront_advance fun _ => ?_
      exact Parser.takesFront_bind (hitem choice) fun _ => Parser.takesFront_pure _

theorem Parser.after?_eq_none {choose : TokenKind → Option β}
    {item : β → Parser α} {tokens : List Token}
    (h : choose (nextToken tokens).kind = none) :
    Parser.after? choose item tokens = .ok none tokens := by
  rw [Parser.after?, Parser.peek_bind, h]
  rfl

theorem Parser.after?_eq_some {choose : TokenKind → Option β}
    {item : β → Parser α} {tokens : List Token} {choice : β}
    (h : choose (nextToken tokens).kind = some choice) :
    Parser.after? choose item tokens =
      (item choice >>= fun answer => pure (some answer)) (afterNext tokens) := by
  rw [Parser.after?, Parser.peek_bind, h]
  rfl

theorem Parser.consumes_after? {choose : TokenKind → Option β}
    {item : β → Parser α} (hchoose : Punctual choose)
    (hitem : ∀ choice, Parser.TakesFront (item choice)) :
    Parser.Consumes (·.isSome) (Parser.after? choose item) := by
  intro tokens answer rest h hsome
  cases hchoice : choose (nextToken tokens).kind with
  | none =>
      rw [Parser.after?_eq_none hchoice] at h
      cases h
      exact absurd hsome (by simp)
  | some choice =>
      rw [Parser.after?_eq_some hchoice] at h
      have hkind : (nextToken tokens).kind ≠ .eof := by
        intro heof
        rw [heof, hchoose] at hchoice
        exact absurd hchoice (by simp)
      have hrest := Parser.length_le_of_takesFront
        (Parser.takesFront_bind (hitem choice) fun _ => Parser.takesFront_pure _) h
      exact Nat.lt_of_le_of_lt hrest (length_afterNext_lt hkind)

theorem Parser.alike_after? {n : Nat} {choose : TokenKind → Option β}
    {item item' : β → Parser α} (hchoose : Punctual choose)
    (hitem : ∀ choice, Parser.Alike n (item choice) (item' choice)) :
    Parser.Alike (n + 1) (Parser.after? choose item)
      (Parser.after? choose item') := by
  refine ⟨Parser.takesFront_after? fun choice => (hitem choice).left,
    Parser.takesFront_after? fun choice => (hitem choice).right, ?_⟩
  intro tokens htokens
  cases hchoice : choose (nextToken tokens).kind with
  | none => rw [Parser.after?_eq_none hchoice, Parser.after?_eq_none hchoice]
  | some choice =>
      rw [Parser.after?_eq_some hchoice, Parser.after?_eq_some hchoice]
      have hkind : (nextToken tokens).kind ≠ .eof := by
        intro heof
        rw [heof, hchoose] at hchoice
        exact absurd hchoice (by simp)
      have hlength := length_afterNext_lt hkind
      exact ((hitem choice).bind fun _ =>
        .refl (Parser.takesFront_pure _) n).agree _ (by omega)

theorem Parser.takesFront_collect {step : Parser (Option α)}
    (hfront : Parser.TakesFront step)
    (hconsumes : Parser.Consumes (·.isSome) step) :
    Parser.TakesFront (Parser.collect step) :=
  Parser.takesFront_fix (Parser.progressive_round hfront hconsumes)

/-- Repetitions of steps that are alike are alike. -/
theorem Parser.alike_collect {n : Nat} {step step' : Parser (Option α)}
    (h : Parser.Alike n step step')
    (hconsumes : Parser.Consumes (·.isSome) step)
    (hconsumes' : Parser.Consumes (·.isSome) step') :
    Parser.Alike n (Parser.collect step) (Parser.collect step') := by
  refine ⟨Parser.takesFront_collect h.left hconsumes,
    Parser.takesFront_collect h.right hconsumes', ?_⟩
  intro tokens
  induction hlength : tokens.length using Nat.strongRecOn generalizing tokens with
  | ind length ih =>
    intro htokens
    rw [Parser.collect_eq h.left hconsumes, Parser.collect_eq h.right hconsumes']
    have hsame := h.agree tokens (by omega)
    cases hstep : step tokens with
    | error error rest =>
        rw [Parser.round, Parser.round, Parser.bind_of_error hstep,
          Parser.bind_of_error (hsame.symm.trans hstep)]
    | ok answer rest =>
        rw [Parser.round, Parser.round, Parser.bind_of_ok hstep,
          Parser.bind_of_ok (hsame.symm.trans hstep)]
        cases answer with
        | none => rfl
        | some item =>
            have hrest := hconsumes tokens (some item) rest hstep rfl
            have hmore := ih rest.length (by omega) rest rfl (by omega)
            simp only [bind, EStateM.bind, hmore]

theorem Parser.alike_commaSeparated {n : Nat} {item item' : Parser α}
    (h : Parser.Alike n item item') :
    Parser.Alike n (Parser.commaSeparated item) (Parser.commaSeparated item') := by
  refine h.bind fun first => ?_
  have hstep := (Parser.alike_after? (punctual_chooseMark .comma)
    fun _ : Unit => h).mono (Nat.le_succ n)
  refine Parser.Alike.bind ?_ fun others => .refl (Parser.takesFront_pure _) n
  exact Parser.alike_collect hstep
    (Parser.consumes_after? (punctual_chooseMark .comma) fun _ => h.left)
    (Parser.consumes_after? (punctual_chooseMark .comma) fun _ => h.right)

theorem Parser.alike_parenthesized {n : Nat} {opening closing : String}
    {item item' : Parser α} (h : Parser.Alike n item item') :
    Parser.Alike (n + 1) (Parser.parenthesized opening closing item)
      (Parser.parenthesized opening closing item') := by
  apply Parser.Alike.bind_of_consumes (Parser.takesFront_expect _ _)
    (Parser.consumes_expect _ _)
  intro _
  apply Parser.Alike.bind (.refl (Parser.takesFront_sees _) n)
  intro seen
  have hclosing : ∀ items : List α, Parser.TakesFront (do
      Parser.expect .rightParen closing
      return items) := fun items =>
    Parser.takesFront_bind (Parser.takesFront_expect _ _) fun _ =>
      Parser.takesFront_pure _
  cases seen with
  | true => exact .refl (hclosing []) n
  | false =>
      exact (Parser.alike_commaSeparated h).bind fun items => .refl (hclosing items) n

theorem Parser.takesFront_loc : Parser.TakesFront Parser.loc := by
  apply Parser.takesFront_bind Parser.takesFront_ident
  intro id
  refine Parser.takesFront_bind ?_ fun fields => Parser.takesFront_pure _
  exact Parser.takesFront_collect
    (Parser.takesFront_after? fun _ => Parser.takesFront_ident)
    (Parser.consumes_after? (punctual_chooseMark .dot)
      fun _ => Parser.takesFront_ident)

theorem Parser.alike_call {n : Nat} {expr expr' : Parser Expr}
    (h : Parser.Alike n expr expr') :
    Parser.Alike (n + 1) (Parser.call expr) (Parser.call expr') := by
  apply Parser.Alike.bind (.refl Parser.takesFront_ident (n + 1))
  intro callee
  exact (Parser.alike_parenthesized h).bind fun args =>
    .refl (Parser.takesFront_pure _) (n + 1)

theorem Parser.takesFront_term {expr : Parser Expr}
    (h : Parser.TakesFront expr) : Parser.TakesFront (Parser.term expr) := by
  apply Parser.takesFront_bind Parser.takesFront_peek
  intro token
  have hliteral : ∀ literal : Expr, Parser.TakesFront (do
      Parser.advance
      return literal) := fun literal =>
    Parser.takesFront_bind Parser.takesFront_advance fun _ =>
      Parser.takesFront_pure _
  split
  · exact hliteral _
  · exact hliteral _
  · exact hliteral _
  · exact hliteral _
  · refine Parser.takesFront_bind Parser.takesFront_advance fun _ => ?_
    refine Parser.takesFront_bind h fun inner => ?_
    exact Parser.takesFront_bind (Parser.takesFront_expect _ _) fun _ =>
      Parser.takesFront_pure _
  · refine Parser.takesFront_bind (Parser.takesFront_peekAt 1) fun second => ?_
    split
    · exact (Parser.alike_call (.refl h 0)).left
    · exact Parser.takesFront_loc
  · exact Parser.takesFront_failHere _

/-- A term needs its expressions behind a parenthesis only. -/
theorem Parser.alike_term {n : Nat} {expr expr' : Parser Expr}
    (h : Parser.Alike n expr expr') :
    Parser.Alike (n + 1) (Parser.term expr) (Parser.term expr') := by
  refine ⟨Parser.takesFront_term h.left, Parser.takesFront_term h.right, ?_⟩
  intro tokens htokens
  rw [Parser.term, Parser.term, Parser.peek_bind, Parser.peek_bind]
  cases hkind : (nextToken tokens).kind with
  | keyword word => cases word <;> rfl
  | punct mark =>
      cases mark with
      | leftParen =>
          have hlength : (afterNext tokens).length < tokens.length :=
            length_afterNext_lt (by simp [hkind])
          dsimp only
          rw [Parser.advance_bind, Parser.advance_bind]
          refine (h.bind fun inner => .refl ?_ n).agree _ (by omega)
          exact Parser.takesFront_bind (Parser.takesFront_expect _ _) fun _ =>
            Parser.takesFront_pure _
      | _ => rfl
  | ident name =>
      dsimp only
      rw [Parser.peekAt_bind, Parser.peekAt_bind]
      by_cases hsecond : (nextToken (tokens.drop 1)).kind = .punct .leftParen
      · rw [if_pos hsecond, if_pos hsecond]
        exact (Parser.alike_call h).agree tokens htokens
      · rw [if_neg hsecond, if_neg hsecond]
  | _ => rfl

theorem Parser.alike_unary {n : Nat} {expr expr' : Parser Expr}
    (h : Parser.Alike n expr expr') :
    Parser.Alike (n + 1) (Parser.unary expr) (Parser.unary expr') := by
  refine Parser.Alike.bind (.refl ?_ (n + 1)) fun ops => ?_
  · exact Parser.takesFront_collect
      (Parser.takesFront_after? fun op => Parser.takesFront_pure op)
      (Parser.consumes_after? punctual_chooseUnary fun op => Parser.takesFront_pure op)
  · exact (Parser.alike_term h).bind fun operand =>
      .refl (Parser.takesFront_pure _) (n + 1)

theorem Parser.takesFront_operand {operand : Parser Expr}
    (h : Parser.TakesFront operand) (op : BinaryOp) :
    Parser.TakesFront (do return (op, ← operand)) :=
  Parser.takesFront_bind h fun _ => Parser.takesFront_pure _

theorem Parser.alike_chain {n : Nat} (level : Level)
    {choose : TokenKind → Option BinaryOp} {operand operand' : Parser Expr}
    (hlevel : level.operator? = some choose) (h : Parser.Alike n operand operand') :
    Parser.Alike n (Parser.chain choose operand)
      (Parser.chain choose operand') := by
  have hchoose := Level.punctual_of_operator? hlevel
  refine h.bind fun first => ?_
  refine Parser.Alike.bind ?_ fun others => .refl (Parser.takesFront_pure _) n
  have hitem : ∀ op : BinaryOp, Parser.Alike n (do return (op, ← operand))
      (do return (op, ← operand')) := fun op =>
    h.bind fun value => .refl (Parser.takesFront_pure _) n
  exact Parser.alike_collect
    ((Parser.alike_after? hchoose hitem).mono (Nat.le_succ n))
    (Parser.consumes_after? hchoose fun op => (hitem op).left)
    (Parser.consumes_after? hchoose fun op => (hitem op).right)

theorem Parser.alike_additive {n : Nat} {expr expr' : Parser Expr}
    (h : Parser.Alike n expr expr') :
    Parser.Alike (n + 1) (Parser.additive expr) (Parser.additive expr') :=
  Parser.alike_chain .sum rfl <|
    Parser.alike_chain .product rfl (Parser.alike_unary h)

theorem Parser.alike_relational {n : Nat} {expr expr' : Parser Expr}
    (h : Parser.Alike n expr expr') :
    Parser.Alike (n + 1) (Parser.relational expr) (Parser.relational expr') := by
  have hadditive := Parser.alike_additive h
  refine hadditive.bind fun lhs => ?_
  have hitem : ∀ op : BinaryOp, Parser.Alike (n + 1)
      (do return (op, ← Parser.additive expr))
      (do return (op, ← Parser.additive expr')) := fun op =>
    hadditive.bind fun value => .refl (Parser.takesFront_pure _) (n + 1)
  refine ((Parser.alike_after? punctual_chooseRelational hitem).mono (Nat.le_succ _)).bind
    fun other => .refl ?_ (n + 1)
  cases other with
  | none => exact Parser.takesFront_pure _
  | some other =>
      refine Parser.takesFront_bind Parser.takesFront_peek fun token => ?_
      split
      · exact Parser.takesFront_failHere _
      · exact Parser.takesFront_pure _

theorem Parser.alike_disjunction {n : Nat} {expr expr' : Parser Expr}
    (h : Parser.Alike n expr expr') :
    Parser.Alike (n + 1) (Parser.disjunction expr) (Parser.disjunction expr') :=
  Parser.alike_chain .disjunction rfl <|
    Parser.alike_chain .conjunction rfl (Parser.alike_relational h)

theorem Parser.alike_assignment {n : Nat} {expr expr' : Parser Expr}
    (h : Parser.Alike n expr expr') :
    Parser.Alike (n + 1) (Parser.assignment expr) (Parser.assignment expr') := by
  refine (Parser.alike_disjunction h).bind fun lhs => ?_
  have hfront : ∀ {value : Parser Expr}, Parser.TakesFront value →
      ∀ token : Token, Parser.TakesFront (if token.kind = .punct .equal then do
        Parser.advance
        if lhs.isLocation then return Expr.assign lhs (← value)
        else throw ⟨.notAssignable, token.span⟩
      else return lhs) := by
    intro value hvalue token
    split
    · refine Parser.takesFront_bind Parser.takesFront_advance fun _ => ?_
      split
      · exact Parser.takesFront_bind hvalue fun _ => Parser.takesFront_pure _
      · exact Parser.takesFront_throw _
    · exact Parser.takesFront_pure _
  refine ⟨Parser.takesFront_bind Parser.takesFront_peek (hfront h.left),
    Parser.takesFront_bind Parser.takesFront_peek (hfront h.right), ?_⟩
  intro tokens htokens
  rw [Parser.peek_bind, Parser.peek_bind]
  split
  case isTrue hkind =>
      have hlength : (afterNext tokens).length < tokens.length :=
        length_afterNext_lt (by simp [hkind])
      rw [Parser.advance_bind, Parser.advance_bind]
      split
      · exact (h.bind fun value => .refl (Parser.takesFront_pure _) n).agree _
          (by omega)
      · rfl
  case isFalse => rfl

section Operands

variable {expr : Parser Expr} (h : Parser.TakesFront expr)

include h

theorem Parser.takesFront_unary : Parser.TakesFront (Parser.unary expr) :=
  (Parser.alike_unary (.refl h 0)).left

theorem Parser.takesFront_multiplicative : Parser.TakesFront (Parser.multiplicative expr) :=
  (Parser.alike_chain .product rfl (.refl (Parser.takesFront_unary h) 0)).left

theorem Parser.takesFront_relational : Parser.TakesFront (Parser.relational expr) :=
  (Parser.alike_relational (.refl h 0)).left

theorem Parser.takesFront_conjunction : Parser.TakesFront (Parser.conjunction expr) :=
  (Parser.alike_chain .conjunction rfl (.refl (Parser.takesFront_relational h) 0)).left

end Operands

theorem Parser.progressive_assignment : Parser.Progressive Parser.assignment :=
  Parser.progressive_of_alike fun _ _ _ => Parser.alike_assignment

/-- An expression is what its grammar says in terms of itself. -/
theorem Parser.expr_eq : Parser.expr = Parser.assignment Parser.expr :=
  Parser.fix_eq Parser.progressive_assignment

theorem Parser.takesFront_expr : Parser.TakesFront Parser.expr :=
  Parser.takesFront_fix Parser.progressive_assignment

end MiniLang

/-
How far parsers look. A parser decides by the tokens that it takes and the one in front of
which it stops. Where a production looks further ahead, it does the same as one that takes
a token first and decides behind it. Main statement: what a request brings up depends on
nothing behind the position where the parser stops.
-/
import MiniLang.Grammar.Session
import MiniLang.Proofs.Grammar.Soundness
import Mathlib

namespace MiniLang

variable {α β : Type}

/-- What a parser says that comes to an outcome and leaves some tokens. -/
def resultAt (rest : List Token) :
    Except SyntaxError α → EStateM.Result SyntaxError (List Token) α
  | .ok answer => .ok answer rest
  | .error error => .error error rest

theorem resultAt_inj {outcome outcome' : Except SyntaxError α} {rest rest' : List Token}
    (h : resultAt rest outcome = resultAt rest' outcome') :
    outcome = outcome' ∧ rest = rest' := by
  cases outcome <;> cases outcome' <;> cases h <;> exact ⟨rfl, rfl⟩

/-- Whether a parser comes to an outcome once it has taken `front` and stands in front of
`here`, whatever is behind that. The end of the file is not taken. -/
structure Parser.Decides (p : Parser α) (front : List Token) (here : Token)
    (outcome : Except SyntaxError α) : Prop where
  taken : ∀ token ∈ front, token.isEof = false
  result : ∀ behind, Closed (here :: behind) →
    p (front ++ here :: behind) = resultAt (here :: behind) outcome

/-- Whether a parser decides on nothing behind the token in front of which it stops. -/
def Parser.DecidesOn (p : Parser α) (tokens : List Token) : Prop :=
  ∃ front here behind outcome, tokens = front ++ here :: behind ∧
    p.Decides front here outcome

/-- Whether a parser never decides on anything behind the token in front of which it
stops. -/
def Parser.Decisive (p : Parser α) : Prop :=
  ∀ tokens, Closed tokens → p.DecidesOn tokens

/-- A parser that takes nothing decides by the next token. -/
theorem Parser.Decisive.of_head {p : Parser α} (outcome : Token → Except SyntaxError α)
    (h : ∀ token rest, p (token :: rest) = resultAt (token :: rest) (outcome token)) :
    Parser.Decisive p := by
  intro tokens hclosed
  obtain ⟨token, rest, rfl⟩ := hclosed.exists_cons
  exact ⟨[], token, rest, outcome token, rfl, List.forall_mem_nil _,
    fun behind _ => h token behind⟩

/-- A parser that takes a token and goes on without a look at it decides as what it goes
on with. -/
theorem Parser.DecidesOn.of_step {p q : Parser α} {token : Token} {rest : List Token}
    (htoken : token.isEof = false) (hstep : ∀ behind, p (token :: behind) = q behind)
    (h : q.DecidesOn rest) : p.DecidesOn (token :: rest) := by
  obtain ⟨front, here, behind, outcome, rfl, hdecides⟩ := h
  refine ⟨token :: front, here, behind, outcome, rfl,
    List.forall_mem_cons.mpr ⟨htoken, hdecides.taken⟩, fun other hother => ?_⟩
  rw [List.cons_append, hstep, hdecides.result other hother]

/-- A parser that looks at the next token decides in front of it as what it goes on with. -/
theorem Parser.DecidesOn.of_peek {f : Token → Parser α} {token : Token} {rest : List Token}
    (h : (f token).DecidesOn (token :: rest)) :
    (Parser.peek >>= f).DecidesOn (token :: rest) := by
  obtain ⟨front, here, behind, outcome, hsplit, hdecides⟩ := h
  refine ⟨front, here, behind, outcome, hsplit, hdecides.taken, fun other hother => ?_⟩
  have hnext : nextToken (front ++ here :: other) = token := by
    cases front <;> cases hsplit <;> rfl
  rw [Parser.peek_bind, hnext, hdecides.result other hother]

/-- Two steps decide one behind the other where the first one stops in front of what the
second one starts with. -/
theorem Parser.Decides.bind {p : Parser α} {f : α → Parser β} {front more : List Token}
    {here there : Token} {answer : α} {outcome : Except SyntaxError β}
    (hp : p.Decides front here (.ok answer)) (hf : (f answer).Decides more there outcome)
    (hmeet : (more ++ [there]).head? = some here) :
    (p >>= f).Decides (front ++ more) there outcome := by
  refine ⟨List.forall_mem_append.mpr ⟨hp.taken, hf.taken⟩, fun behind hbehind => ?_⟩
  -- Where the first parser stops, the second one starts.
  obtain ⟨next, hnext⟩ : ∃ next, more ++ there :: behind = here :: next := by
    cases more with
    | nil => exact ⟨behind, by rw [← Option.some.inj hmeet]; rfl⟩
    | cons token more => exact ⟨more ++ there :: behind, by rw [← Option.some.inj hmeet]; rfl⟩
  have hclosed : Closed (here :: next) := hnext ▸ closed_append_cons.mpr hbehind
  have hfirst : p (front ++ here :: next) = .ok answer (here :: next) :=
    hp.result next hclosed
  rw [List.append_assoc, hnext, Parser.bind_of_ok hfirst, ← hnext, hf.result behind hbehind]

theorem Parser.Decisive.bind {p : Parser α} {f : α → Parser β} (hp : Parser.Decisive p)
    (hf : ∀ answer, Parser.Decisive (f answer)) : Parser.Decisive (p >>= f) := by
  intro tokens hclosed
  obtain ⟨front, here, behind, outcome, rfl, hdecides⟩ := hp tokens hclosed
  cases outcome with
  | error error =>
      refine ⟨front, here, behind, .error error, rfl, hdecides.taken, fun other hother => ?_⟩
      exact Parser.bind_of_error (hdecides.result other hother)
  | ok answer =>
      obtain ⟨more, there, last, outcome, hsplit, hmore⟩ :=
        hf answer (here :: behind) (closed_append_cons.mp hclosed)
      refine ⟨front ++ more, there, last, outcome, ?_, hdecides.bind hmore ?_⟩
      · rw [hsplit, List.append_assoc]
      · cases more <;> cases hsplit <;> rfl

/-- A parser that its body describes decides as the body does. However deep the nesting
is, it comes to the same outcome in the same place. -/
theorem Parser.Decisive.fix {body : Parser α → Parser α} (hbody : Parser.Progressive body)
    (hkeep : ∀ p, Parser.TakesFront p → Parser.Decisive p → Parser.Decisive (body p)) :
    Parser.Decisive (Parser.fix body) := by
  have hnear := Parser.exists_agreeBelow hbody (Parser.takesFront_failHere default)
    (.of_head (fun token => .error ⟨default, token.span⟩) fun _ _ => rfl) hkeep
  intro tokens hclosed
  obtain ⟨p, _, hp, hagree⟩ := hnear (tokens.length + 1)
  obtain ⟨front, here, behind, outcome, rfl, hdecides⟩ := hp tokens hclosed
  refine ⟨front, here, behind, outcome, rfl, hdecides.taken, fun other hother => ?_⟩
  have hresult : Parser.fix body (front ++ here :: behind) =
      resultAt (here :: behind) outcome := by
    rw [← hagree _ (Nat.lt_succ_self _), hdecides.result behind (closed_append_cons.mp hclosed)]
  -- One parser that says the same as the fixed point on both lists.
  obtain ⟨q, _, hq, hsame⟩ := hnear
    ((front ++ here :: behind).length + (front ++ here :: other).length + 1)
  obtain ⟨front', here', behind', outcome', hsplit, hdecides'⟩ := hq _ hclosed
  rw [hsplit] at hclosed
  have hresult' := hdecides'.result behind' (closed_append_cons.mp hclosed)
  rw [← hsplit, hsame _ (by omega), hresult] at hresult'
  obtain ⟨rfl, hrest⟩ := resultAt_inj hresult'
  obtain ⟨rfl, rfl⟩ := List.cons.inj hrest
  obtain rfl := List.append_cancel_right hsplit
  rw [← hsame _ (by omega), hdecides'.result other hother]

section Steps

theorem Parser.Decisive.pure (answer : α) :
    Parser.Decisive (Pure.pure answer : Parser α) :=
  .of_head (fun _ => .ok answer) fun _ _ => rfl

theorem Parser.Decisive.throw (error : SyntaxError) :
    Parser.Decisive (MonadExcept.throw error : Parser α) :=
  .of_head (fun _ => .error error) fun _ _ => rfl

theorem Parser.Decisive.peek : Parser.Decisive Parser.peek :=
  .of_head .ok fun _ _ => rfl

theorem Parser.Decisive.sees (mark : Punct) : Parser.Decisive (Parser.sees mark) :=
  .of_head (fun token => .ok (token.kind == .punct mark)) fun _ _ => rfl

theorem Parser.Decisive.failHere (fault : SyntaxFault) :
    Parser.Decisive (Parser.failHere fault : Parser α) :=
  Parser.Decisive.peek.bind fun _ => .throw _

theorem Parser.Decisive.unexpected (wanted : Wanted) :
    Parser.Decisive (Parser.unexpected wanted : Parser α) :=
  Parser.Decisive.peek.bind fun _ => .failHere _

theorem Parser.Decisive.advance : Parser.Decisive Parser.advance := by
  intro tokens hclosed
  obtain ⟨token, rest, rfl⟩ := hclosed.exists_cons
  cases heof : token.isEof with
  | true =>
      refine ⟨[], token, rest, .ok (), rfl, List.forall_mem_nil _, fun behind _ => ?_⟩
      change EStateM.Result.ok () (afterNext (token :: behind)) = _
      rw [afterNext, if_pos heof]
      rfl
  | false =>
      have hstep : ∀ behind, Parser.advance (token :: behind) =
          (Pure.pure () : Parser Unit) behind := by
        intro behind
        change EStateM.Result.ok () (afterNext (token :: behind)) = _
        rw [afterNext, if_neg (by simp [heof])]
        rfl
      exact .of_step heof hstep (Parser.Decisive.pure () rest (hclosed.tail heof))

theorem Parser.Decisive.accept (mark : Punct) : Parser.Decisive (Parser.accept mark) := by
  refine (Parser.Decisive.sees mark).bind fun seen => ?_
  split
  · exact Parser.Decisive.advance.bind fun _ => .pure _
  · exact .pure _

theorem Parser.Decisive.expect (mark : Punct) (context : String) :
    Parser.Decisive (Parser.expect mark context) := by
  refine (Parser.Decisive.sees mark).bind fun seen => ?_
  split
  · exact .advance
  · exact .unexpected _

theorem Parser.Decisive.collect {step : Parser (Option α)}
    (hfront : Parser.TakesFront step) (hconsumes : Parser.Consumes (·.isSome) step)
    (hstep : Parser.Decisive step) : Parser.Decisive (Parser.collect step) := by
  refine .fix (Parser.progressive_round hfront hconsumes) fun more _ hmore =>
    hstep.bind fun answer => ?_
  cases answer with
  | none => exact .pure _
  | some item => exact hmore.bind fun _ => .pure _

theorem Parser.Decisive.after? (choose : TokenKind → Option β) {item : β → Parser α}
    (hitem : ∀ choice, Parser.Decisive (item choice)) :
    Parser.Decisive (Parser.after? choose item) := by
  refine Parser.Decisive.peek.bind fun token => ?_
  split
  · exact .pure _
  · exact Parser.Decisive.advance.bind fun _ => (hitem _).bind fun _ => .pure _

/-- Items behind chosen tokens, of which the end of the file is none. -/
theorem Parser.Decisive.row {choose : TokenKind → Option β} {item : β → Parser α}
    (hchoose : Punctual choose) (hfront : ∀ choice, Parser.TakesFront (item choice))
    (hitem : ∀ choice, Parser.Decisive (item choice)) :
    Parser.Decisive (Parser.collect (Parser.after? choose item)) :=
  .collect (Parser.takesFront_after? hfront) (Parser.consumes_after? hchoose hfront)
    (.after? choose hitem)

theorem Parser.Decisive.parenthesized (opening closing : String) {item : Parser α}
    (hfront : Parser.TakesFront item) (hitem : Parser.Decisive item) :
    Parser.Decisive (Parser.parenthesized opening closing item) := by
  have hclosing : ∀ items : List α, Parser.Decisive (do
      Parser.expect .rightParen closing
      return items) :=
    fun _ => (Parser.Decisive.expect _ _).bind fun _ => .pure _
  have hitems : Parser.Decisive (Parser.commaSeparated item) :=
    hitem.bind fun _ => (Parser.Decisive.row (punctual_chooseMark _) (fun _ => hfront)
      fun _ => hitem).bind fun _ => .pure _
  refine (Parser.Decisive.expect _ _).bind fun _ => (Parser.Decisive.sees _).bind fun seen => ?_
  dsimp only
  split
  · exact (Parser.Decisive.pure _).bind hclosing
  · exact hitems.bind hclosing

theorem Parser.ident_of_kind {token : Token} {name : String} (h : token.kind = .ident name)
    (rest : List Token) : Parser.ident (token :: rest) = .ok (token.ident name) rest :=
  Parser.ident_eq_ok_iff.mpr ⟨token, name, rfl, h, rfl⟩

theorem Parser.Decisive.ident : Parser.Decisive Parser.ident := by
  refine Parser.Decisive.peek.bind fun token => ?_
  split
  · exact Parser.Decisive.advance.bind fun _ => .pure _
  · exact .unexpected _

end Steps

section Expr

/-- What a term makes of a name at its start: a call if arguments stand behind the name,
and a location otherwise. -/
def Parser.termBehind (expr : Parser Expr) (id : Ident) : Parser Expr := do
  if ← Parser.sees .leftParen then
    let args ← Parser.parenthesized "after function name" "after call arguments" expr
    return .call id args
  else
    let fields ← Parser.collect (Parser.after? (chooseMark .dot) fun _ => Parser.ident)
    return fields.foldl .dot (.name id)

/-- A term looks at the token behind its name before it takes the name. It could as well
take the name first. -/
theorem Parser.term_eq_termBehind {token : Token} {name : String}
    (h : token.kind = .ident name) (expr : Parser Expr) (behind : List Token) :
    Parser.term expr (token :: behind) =
      Parser.termBehind expr (token.ident name) behind := by
  have hid := Parser.ident_of_kind h behind
  rw [Parser.term, Parser.peek_bind, Parser.termBehind, Parser.sees_bind]
  simp only [nextToken_cons, h]
  rw [Parser.peekAt_bind, List.drop_succ_cons, List.drop_zero]
  by_cases hparen : (nextToken behind).kind = .punct .leftParen
  · rw [if_pos hparen, if_pos (beq_iff_eq.mpr hparen), Parser.call, Parser.bind_of_ok hid]
  · rw [if_neg hparen, if_neg (by simpa using hparen), Parser.loc, Parser.bind_of_ok hid]

theorem Parser.Decisive.fields? : Parser.Decisive
    (Parser.collect (Parser.after? (chooseMark .dot) fun _ => Parser.ident)) :=
  .row (punctual_chooseMark _) (fun _ => Parser.takesFront_ident) fun _ => .ident

theorem Parser.Decisive.loc : Parser.Decisive Parser.loc :=
  Parser.Decisive.ident.bind fun _ => Parser.Decisive.fields?.bind fun _ => .pure _

section Nested

variable {expr : Parser Expr} (hfront : Parser.TakesFront expr)
  (hexpr : Parser.Decisive expr)

include hfront hexpr

theorem Parser.Decisive.termBehind (id : Ident) :
    Parser.Decisive (Parser.termBehind expr id) := by
  refine (Parser.Decisive.sees _).bind fun seen => ?_
  split
  · exact (Parser.Decisive.parenthesized _ _ hfront hexpr).bind fun _ => .pure _
  · exact Parser.Decisive.fields?.bind fun _ => .pure _

theorem Parser.Decisive.term : Parser.Decisive (Parser.term expr) := by
  intro tokens hclosed
  obtain ⟨token, rest, rfl⟩ := hclosed.exists_cons
  by_cases hname : ∃ name, token.kind = .ident name
  · obtain ⟨name, hkind⟩ := hname
    have htoken : token.isEof = false := by simp [Token.isEof, hkind]
    exact .of_step htoken (Parser.term_eq_termBehind hkind expr)
      (Parser.Decisive.termBehind hfront hexpr _ rest (hclosed.tail htoken))
  · have hliteral : ∀ literal : Expr, Parser.Decisive (do
        Parser.advance
        return literal) := fun _ => Parser.Decisive.advance.bind fun _ => .pure _
    refine .of_peek ?_
    split
    case h_5 =>
      have hinner : Parser.Decisive (do
          Parser.advance
          let inner ← expr
          Parser.expect .rightParen "after parenthesized expression"
          return inner) :=
        Parser.Decisive.advance.bind fun _ => hexpr.bind fun _ =>
          (Parser.Decisive.expect _ _).bind fun _ => .pure _
      exact hinner _ hclosed
    case h_6 hkind => exact absurd ⟨_, hkind⟩ hname
    case h_7 => exact Parser.Decisive.failHere _ _ hclosed
    all_goals exact hliteral _ _ hclosed

theorem Parser.Decisive.unary : Parser.Decisive (Parser.unary expr) :=
  (Parser.Decisive.row punctual_chooseUnary (fun _ => Parser.takesFront_pure _)
    fun _ => .pure _).bind fun _ => (Parser.Decisive.term hfront hexpr).bind fun _ => .pure _

omit hfront hexpr in
theorem Parser.Decisive.chain (level : Level) {choose : TokenKind → Option BinaryOp}
    (hlevel : level.operator? = some choose) {operand : Parser Expr}
    (hfront : Parser.TakesFront operand) (hoperand : Parser.Decisive operand) :
    Parser.Decisive (Parser.chain choose operand) :=
  hoperand.bind fun _ => (Parser.Decisive.row (Level.punctual_of_operator? hlevel)
    (Parser.takesFront_operand hfront) fun _ => hoperand.bind fun _ => .pure _).bind
      fun _ => .pure _

theorem Parser.Decisive.additive : Parser.Decisive (Parser.additive expr) :=
  .chain .sum rfl (Parser.takesFront_multiplicative hfront)
    (.chain .product rfl (Parser.takesFront_unary hfront) (.unary hfront hexpr))

theorem Parser.Decisive.relational : Parser.Decisive (Parser.relational expr) := by
  have hside := Parser.Decisive.additive hfront hexpr
  refine hside.bind fun lhs =>
    (Parser.Decisive.after? _ fun _ => hside.bind fun _ => .pure _).bind fun compared => ?_
  split
  · exact .pure _
  · refine Parser.Decisive.peek.bind fun token => ?_
    split
    · exact .failHere _
    · exact .pure _

theorem Parser.Decisive.disjunction : Parser.Decisive (Parser.disjunction expr) :=
  .chain .disjunction rfl (Parser.takesFront_conjunction hfront)
    (.chain .conjunction rfl (Parser.takesFront_relational hfront)
      (.relational hfront hexpr))

theorem Parser.Decisive.assignment : Parser.Decisive (Parser.assignment expr) := by
  refine (Parser.Decisive.disjunction hfront hexpr).bind fun lhs =>
    Parser.Decisive.peek.bind fun token => ?_
  split
  · refine Parser.Decisive.advance.bind fun _ => ?_
    split
    · exact hexpr.bind fun _ => .pure _
    · exact .throw _
  · exact .pure _

end Nested

theorem Parser.Decisive.expr : Parser.Decisive Parser.expr :=
  .fix Parser.progressive_assignment fun _ => .assignment

end Expr

section Declarations

theorem Parser.Decisive.type : Parser.Decisive Parser.type := by
  refine Parser.Decisive.peek.bind fun token => ?_
  split
  · exact Parser.Decisive.advance.bind fun _ => .pure _
  · exact Parser.Decisive.advance.bind fun _ => .pure _
  · exact Parser.Decisive.advance.bind fun _ => .pure _
  · exact Parser.Decisive.advance.bind fun _ => Parser.Decisive.ident.bind fun _ => .pure _
  · exact .unexpected _

theorem Parser.Decisive.varDecl : Parser.Decisive Parser.varDecl :=
  Parser.Decisive.type.bind fun _ => Parser.Decisive.ident.bind fun _ =>
    (Parser.Decisive.expect _ _).bind fun _ => .pure _

theorem Parser.Decisive.formal : Parser.Decisive Parser.formal :=
  Parser.Decisive.type.bind fun _ => Parser.Decisive.ident.bind fun _ => .pure _

theorem Parser.Decisive.field? : Parser.Decisive Parser.field? := by
  refine Parser.Decisive.peek.bind fun token => ?_
  dsimp only
  split
  · exact .pure _
  · split
    · exact Parser.Decisive.varDecl.bind fun _ => .pure _
    · exact .unexpected _

theorem Parser.Decisive.fields (name : String) : Parser.Decisive (Parser.fields name) := by
  refine (Parser.Decisive.collect Parser.takesFront_field? Parser.consumes_field?
    .field?).bind fun fields => ?_
  split
  · exact .failHere _
  · exact .pure _

end Declarations

section Statements

theorem Parser.Decisive.condition : Parser.Decisive Parser.condition :=
  (Parser.Decisive.expect _ _).bind fun _ => Parser.Decisive.expr.bind fun _ =>
    (Parser.Decisive.expect _ _).bind fun _ => .pure _

theorem Parser.Decisive.storeStep (start : Span) (expr : Expr) :
    Parser.Decisive (Parser.storeStep start expr) := by
  unfold Parser.storeStep
  split
  · exact .pure _
  · exact .pure _
  · split
    · refine (Parser.Decisive.accept _).bind fun up => ?_
      split
      · exact .pure _
      · refine (Parser.Decisive.accept _).bind fun down => ?_
        split
        · exact .pure _
        · exact .unexpected _
    · exact .throw _

theorem Parser.Decisive.exprStmt : Parser.Decisive Parser.exprStmt :=
  Parser.Decisive.peek.bind fun _ => Parser.Decisive.expr.bind fun _ =>
    (Parser.Decisive.storeStep _ _).bind fun _ =>
      (Parser.Decisive.expect _ _).bind fun _ => .pure _

theorem Parser.Decisive.returnValue? : Parser.Decisive Parser.returnValue? := by
  refine (Parser.Decisive.sees _).bind fun seen => ?_
  split
  · exact .pure _
  · exact Parser.Decisive.expr.bind fun _ => .pure _

theorem Parser.Decisive.blockVariable? : Parser.Decisive Parser.blockVariable? := by
  refine Parser.Decisive.peek.bind fun token => ?_
  split
  · exact Parser.Decisive.varDecl.bind fun _ => .pure _
  · exact .pure _

section Nested

variable {block : Parser Block} (hblock : Parser.Decisive block)

include hblock

theorem Parser.Decisive.stmt : Parser.Decisive (Parser.stmt block) := by
  refine Parser.Decisive.peek.bind fun token => ?_
  split
  · exact Parser.Decisive.advance.bind fun _ => (Parser.Decisive.expect _ _).bind fun _ =>
      Parser.Decisive.loc.bind fun _ => (Parser.Decisive.expect _ _).bind fun _ => .pure _
  · exact Parser.Decisive.advance.bind fun _ => (Parser.Decisive.expect _ _).bind fun _ =>
      Parser.Decisive.expr.bind fun _ => (Parser.Decisive.expect _ _).bind fun _ => .pure _
  · refine Parser.Decisive.advance.bind fun _ => Parser.Decisive.condition.bind fun _ =>
      hblock.bind fun _ => Parser.Decisive.peek.bind fun next => ?_
    split
    · exact Parser.Decisive.advance.bind fun _ => hblock.bind fun _ => .pure _
    · exact .pure _
  · exact Parser.Decisive.advance.bind fun _ => Parser.Decisive.condition.bind fun _ =>
      hblock.bind fun _ => .pure _
  · exact Parser.Decisive.advance.bind fun _ => Parser.Decisive.returnValue?.bind fun _ =>
      (Parser.Decisive.expect _ _).bind fun _ => .pure _
  · exact .exprStmt

theorem Parser.Decisive.blockStmt? : Parser.Decisive (Parser.blockStmt? block) := by
  refine Parser.Decisive.peek.bind fun token => ?_
  dsimp only
  split
  · exact .pure _
  · split
    · exact .unexpected _
    · exact hblock.stmt.bind fun _ => .pure _

theorem Parser.Decisive.blockBody (hfront : Parser.TakesFront block) :
    Parser.Decisive (Parser.blockBody block) := by
  have hvariables := Parser.Decisive.collect Parser.takesFront_blockVariable?
    Parser.consumes_blockVariable? .blockVariable?
  have hstmts := Parser.Decisive.collect (Parser.takesFront_blockStmt? hfront)
    (Parser.consumes_blockStmt? hfront) hblock.blockStmt?
  exact (Parser.Decisive.expect _ _).bind fun _ => hvariables.bind fun _ =>
    hstmts.bind fun _ => (Parser.Decisive.expect _ _).bind fun _ => .pure _

end Nested

theorem Parser.Decisive.block : Parser.Decisive Parser.block :=
  .fix Parser.progressive_blockBody fun _ hfront hblock => hblock.blockBody hfront

end Statements

section Program

/-- What a declaration makes of what stands behind `struct`: a struct declaration if a
name and a brace come next, and a variable otherwise. -/
def Parser.structBehind : Parser Decl := do
  let id ← Parser.ident
  if ← Parser.sees .leftBrace then
    Parser.expect .leftBrace "after struct name"
    let fields ← Parser.fields id.name
    Parser.expect .rightBrace "to close struct body"
    Parser.expect .semicolon "after struct declaration"
    return .struct id fields
  else
    let name ← Parser.ident
    Parser.endOfVariable
    return .var (.struct id) name

/-- A declaration looks for the name and the brace of a struct before it takes `struct`. It
could as well take `struct` and the name first. -/
theorem Parser.decl_eq_structBehind {token : Token} (h : token.kind = .keyword .struct)
    (behind : List Token) :
    Parser.decl (token :: behind) = Parser.structBehind behind := by
  have hadvance : afterNext (token :: behind) = behind := afterNext_cons (by simp [h]) behind
  have htype : Parser.type (token :: behind) =
      (Parser.ident >>= fun id => Pure.pure (TypeNode.struct id)) behind := by
    rw [Parser.type, Parser.peek_bind]
    simp only [nextToken_cons, h]
    rw [Parser.advance_bind, hadvance]
  rw [Parser.decl, Parser.peek_bind, nextToken_cons, if_pos h,
    Parser.bind_of_ok (Parser.atStructDecl_eq _), List.drop_succ_cons, List.drop_zero,
    List.drop_succ_cons]
  cases hread : Parser.ident behind with
  | error error rest =>
      have hnone : ∀ name, (nextToken behind).kind ≠ .ident name := by
        intro name hname
        obtain ⟨word, rest, rfl, hword⟩ := eq_cons_of_nextToken hname (by simp)
        rw [Parser.ident_of_kind hword] at hread
        cases hread
      have hvar : Parser.varDecl (token :: behind) = .error error rest :=
        Parser.bind_of_error (htype.trans (Parser.bind_of_error hread))
      rw [Parser.structBehind, Parser.bind_of_error hread]
      split
      case h_1 name hname => exact absurd hname (hnone name)
      case h_2 => exact hvar
  | ok id rest =>
      obtain ⟨word, name, rfl, hword, rfl⟩ := Parser.ident_eq_ok_iff.mp hread
      rw [Parser.structBehind, Parser.bind_of_ok hread, Parser.sees_bind]
      simp only [nextToken_cons, hword, List.drop_succ_cons, List.drop_zero]
      by_cases hbrace : (nextToken rest).kind = .punct .leftBrace
      · rw [if_pos (decide_eq_true hbrace), if_pos (beq_iff_eq.mpr hbrace),
          Parser.structDecl, Parser.advance_bind, hadvance, Parser.bind_of_ok hread]
      · rw [if_neg (by simpa using hbrace), if_neg (by simpa using hbrace), Parser.varDecl,
          Parser.bind_of_ok (htype.trans (Parser.bind_of_ok hread))]

theorem Parser.Decisive.structBehind : Parser.Decisive Parser.structBehind := by
  refine Parser.Decisive.ident.bind fun id => (Parser.Decisive.sees _).bind fun seen => ?_
  split
  · exact (Parser.Decisive.expect _ _).bind fun _ => (Parser.Decisive.fields _).bind
      fun _ => (Parser.Decisive.expect _ _).bind fun _ =>
        (Parser.Decisive.expect _ _).bind fun _ => .pure _
  · exact Parser.Decisive.ident.bind fun _ => (Parser.Decisive.expect _ _).bind fun _ => .pure _

theorem Parser.Decisive.functionRest (result : TypeNode) (id : Ident) :
    Parser.Decisive (Parser.functionRest result id) :=
  (Parser.Decisive.parenthesized _ _ Parser.takesFront_formal .formal).bind fun _ =>
    Parser.Decisive.block.bind fun _ => .pure _

theorem Parser.Decisive.decl : Parser.Decisive Parser.decl := by
  intro tokens hclosed
  obtain ⟨token, rest, rfl⟩ := hclosed.exists_cons
  by_cases hstruct : token.kind = .keyword .struct
  · have htoken : token.isEof = false := by simp [Token.isEof, hstruct]
    exact .of_step htoken (Parser.decl_eq_structBehind hstruct)
      (Parser.Decisive.structBehind rest (hclosed.tail htoken))
  · have htyped : Parser.Decisive (do
        let type ← Parser.type
        let id ← Parser.ident
        if ← Parser.sees .leftParen then Parser.functionRest type id
        else
          Parser.endOfVariable
          return Decl.var type id) := by
      refine Parser.Decisive.type.bind fun type => Parser.Decisive.ident.bind fun id =>
        (Parser.Decisive.sees _).bind fun seen => ?_
      split
      · exact .functionRest type id
      · exact (Parser.Decisive.expect _ _).bind fun _ => .pure _
    refine .of_peek ?_
    rw [if_neg hstruct]
    exact htyped _ hclosed

theorem Parser.Decisive.decl? : Parser.Decisive Parser.decl? := by
  refine Parser.Decisive.peek.bind fun token => ?_
  split
  · exact .pure _
  · exact Parser.Decisive.decl.bind fun _ => .pure _

theorem Parser.Decisive.program : Parser.Decisive Parser.program :=
  (Parser.Decisive.collect Parser.takesFront_decl? Parser.consumes_decl? .decl?).bind
    fun _ => .pure _

end Program

theorem Request.decisive (request : Request) : Parser.Decisive request.parser := by
  cases request with
  | program => exact Parser.Decisive.program.bind fun _ => .pure _
  | expr => exact Parser.Decisive.expr.bind fun _ => .pure _

/-- The reply to a request that is decided between two positions. -/
theorem Request.ask_of_decides {request : Request} {front behind tokens : List Token}
    {here : Token} {outcome : Except SyntaxError Phrase} {start : Nat}
    (h : request.parser.Decides front here outcome) (hclosed : Closed tokens)
    (hsplit : tokens.drop start = front ++ here :: behind) :
    request.ask tokens start = ⟨outcome, start + front.length⟩ := by
  have hlength := congrArg List.length hsplit
  simp only [List.length_drop, List.length_append, List.length_cons] at hlength
  have hbehind : Closed (front ++ here :: behind) := by
    rw [← hsplit]
    exact hclosed.drop (by omega)
  have hstop : tokens.length - (here :: behind).length = start + front.length := by
    rw [List.length_cons]
    omega
  rw [Request.ask, hsplit, h.result behind (closed_append_cons.mp hbehind)]
  cases outcome with
  | ok phrase => exact congrArg (Reply.mk (.ok phrase)) hstop
  | error error => exact congrArg (Reply.mk (.error error)) hstop

/-- The same request to another list that has the same tokens up to the stop. -/
theorem Request.ask_of_agree {request : Request} {front behind tokens others : List Token}
    {here : Token} {outcome : Except SyntaxError Phrase} {start : Nat}
    (h : request.parser.Decides front here outcome)
    (hsplit : tokens.drop start = front ++ here :: behind) (hothers : Closed others)
    (hagree : others.take (start + front.length + 1) =
      tokens.take (start + front.length + 1)) :
    request.ask others start = ⟨outcome, start + front.length⟩ := by
  have hcount : start + front.length + 1 - start = front.length + 1 := by omega
  have hfront : (others.drop start).take (front.length + 1) = front ++ [here] := by
    rw [← hcount, ← List.drop_take, hagree, List.drop_take, hsplit, hcount,
      List.take_length_add_append]
    rfl
  have hother : others.drop start =
      front ++ here :: (others.drop start).drop (front.length + 1) := by
    rw [← List.singleton_append, ← List.append_assoc, ← hfront, List.take_append_drop]
  exact Request.ask_of_decides h hothers hother

/-- Whether what a request brings up is settled where it stops. The stop is the index of a
token, no end of the file is passed, and the reply is the same for all lists that have the
same tokens up to the stop; so nothing behind the first end of the file matters. -/
structure Request.Settled (request : Request) (tokens : List Token) (start stop : Nat) :
    Prop where
  ahead : start ≤ stop
  inside : stop < tokens.length
  taken : ∀ token ∈ (tokens.take stop).drop start, token.isEof = false
  same : ∀ others, Closed others → others.take (stop + 1) = tokens.take (stop + 1) →
    request.ask others start = request.ask tokens start
  unread : ∀ others eof last, Closed others → start ≤ eof → tokens[eof]? = some last →
    last.isEof = true → others.take (eof + 1) = tokens.take (eof + 1) →
    request.ask others start = request.ask tokens start

/-- A request that is asked at a token depends on nothing behind the position where the
parser stops, whether it is answered or fails. -/
theorem Request.settled_at_stop (request : Request) {tokens : List Token} {start : Nat}
    (hclosed : Closed tokens) (hstart : start < tokens.length) :
    request.Settled tokens start (request.ask tokens start).stop := by
  obtain ⟨front, here, behind, outcome, hsplit, hdecides⟩ :=
    request.decisive _ (hclosed.drop hstart)
  have hask := Request.ask_of_decides hdecides hclosed hsplit
  have hstop : (request.ask tokens start).stop = start + front.length := by rw [hask]
  have htaken : (tokens.take (start + front.length)).drop start = front := by
    rw [List.drop_take, hsplit, Nat.add_sub_cancel_left, List.take_left]
  have hsame : ∀ others, Closed others →
      others.take (start + front.length + 1) = tokens.take (start + front.length + 1) →
      request.ask others start = request.ask tokens start := by
    intro others hothers hagree
    rw [hask, Request.ask_of_agree hdecides hsplit hothers hagree]
  rw [hstop]
  refine ⟨Nat.le_add_right _ _, ?_, ?_, hsame, ?_⟩
  · have hlength := congrArg List.length hsplit
    simp only [List.length_drop, List.length_append, List.length_cons] at hlength
    omega
  · rw [htaken]
    exact hdecides.taken
  · intro others eof last hothers hahead hlast heof hagree
    have hbound : start + front.length ≤ eof := by
      refine Nat.le_of_not_lt fun hpassed => ?_
      have hmem : last ∈ (tokens.take (start + front.length)).drop start := by
        refine List.mem_of_getElem? (i := eof - start) ?_
        rw [List.getElem?_drop, Nat.add_sub_cancel' hahead, List.getElem?_take_of_lt hpassed,
          hlast]
      rw [htaken] at hmem
      have hinside := hdecides.taken last hmem
      rw [heof] at hinside
      cases hinside
    refine hsame others hothers ?_
    have hshorter := congrArg (List.take (start + front.length + 1)) hagree
    rwa [List.take_take, List.take_take, Nat.min_eq_left (by omega)] at hshorter

/-- A parser that looks for the brace of a struct fails in front of what stands there, and
not behind it. -/
theorem Request.settled_at_stop_struct : ∃ tokens,
    tokens.map Token.kind =
      [.keyword .struct, .ident "p", .punct .plus, .ident "q", .punct .semicolon, .eof] ∧
    Closed tokens ∧ 0 < tokens.length ∧
    Request.program.ask tokens 0 =
      ⟨.error ⟨.expected .identifier (.punct .plus), Span.ofLength ⟨1, 10⟩ 1⟩, 2⟩ ∧
    Request.program.Settled tokens 0 2 := by
  let tokens : List Token :=
    [⟨.keyword .struct, "struct", ⟨1, 1⟩⟩, ⟨.ident "p", "p", ⟨1, 8⟩⟩,
      ⟨.punct .plus, "+", ⟨1, 10⟩⟩, ⟨.ident "q", "q", ⟨1, 12⟩⟩,
      ⟨.punct .semicolon, ";", ⟨1, 13⟩⟩, Token.eofAt ⟨1, 14⟩]
  have hclosed : Closed tokens := ⟨_, rfl, rfl⟩
  have hask : Request.program.ask tokens 0 =
      ⟨.error ⟨.expected .identifier (.punct .plus), Span.ofLength ⟨1, 10⟩ 1⟩, 2⟩ := by cbv
  have hsettled := Request.program.settled_at_stop hclosed (by decide : 0 < tokens.length)
  rw [hask] at hsettled
  exact ⟨tokens, rfl, hclosed, by decide, hask, hsettled⟩

end MiniLang

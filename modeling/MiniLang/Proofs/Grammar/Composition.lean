/-
How parsers are put together: from looks at the tokens, steps over one token each, and
faults that are found with a token. Main statement: the parsers of the grammar have every
property that parsers inherit from what they are put together from.
-/
import MiniLang.Grammar.Session
import MiniLang.Proofs.Grammar.BlockProgress

namespace MiniLang

variable {α β : Type}

/-- Whether parsers inherit a property from what they are put together from. The tokens
that a parser may come to see have something in common, and only these it finds fault
with. -/
structure Parser.Inherited (seen : Token → Prop) (P : (α : Type) → Parser α → Prop) :
    Prop where
  pure : ∀ {α : Type} (answer : α), P α (Pure.pure answer)
  throw : ∀ {α : Type} (fault : SyntaxFault) (token : Token), fault ≠ .tooDeep →
    seen token → P α (MonadExcept.throw ⟨fault, token.span⟩)
  peek : ∀ {α : Type} {f : Token → Parser α}, (∀ token, seen token → P α (f token)) →
    P α (Parser.peek >>= f)
  peekAt : ∀ offset, P TokenKind (Parser.peekAt offset)
  advance : P Unit Parser.advance
  bind : ∀ {α β : Type} {p : Parser α} {f : α → Parser β}, P α p →
    (∀ answer, P β (f answer)) → P β (p >>= f)
  fix : ∀ {α : Type} {body : Parser α → Parser α}, Parser.Progressive body →
    (∀ p, Parser.TakesFront p → P α p → P α (body p)) → P α (Parser.fix body)

/-- A parser that is put together from looks, steps and faults, and from nothing else. -/
def Parser.Composed (p : Parser α) : Prop :=
  ∀ seen P, Parser.Inherited seen P → P α p

section Inherited

variable {seen : Token → Prop} {P : (α : Type) → Parser α → Prop}
  (h : Parser.Inherited seen P)

include h

section Steps

theorem Parser.Inherited.sees (mark : Punct) : P Bool (Parser.sees mark) :=
  h.peek fun _ _ => h.pure _

theorem Parser.Inherited.failHere {fault : SyntaxFault} (hfault : fault ≠ .tooDeep) :
    P α (Parser.failHere fault) :=
  h.peek fun token htoken => h.throw fault token hfault htoken

theorem Parser.Inherited.unexpected (wanted : Wanted) : P α (Parser.unexpected wanted) :=
  h.peek fun _ _ => h.failHere nofun

theorem Parser.Inherited.accept (mark : Punct) : P Bool (Parser.accept mark) := by
  refine h.bind (h.sees mark) fun seen => ?_
  split
  · exact h.bind h.advance fun _ => h.pure _
  · exact h.pure _

theorem Parser.Inherited.expect (mark : Punct) (context : String) :
    P Unit (Parser.expect mark context) := by
  refine h.bind (h.sees mark) fun seen => ?_
  split
  · exact h.advance
  · exact h.unexpected _

theorem Parser.Inherited.collect {step : Parser (Option α)} (hfront : Parser.TakesFront step)
    (hconsumes : Parser.Consumes (·.isSome) step) (hstep : P (Option α) step) :
    P (List α) (Parser.collect step) := by
  refine h.fix (Parser.progressive_round hfront hconsumes) fun more _ hmore =>
    h.bind hstep fun answer => ?_
  cases answer with
  | none => exact h.pure _
  | some item => exact h.bind hmore fun _ => h.pure _

theorem Parser.Inherited.after? (choose : TokenKind → Option β) {item : β → Parser α}
    (hitem : ∀ choice, P α (item choice)) :
    P (Option α) (Parser.after? choose item) := by
  refine h.peek fun token _ => ?_
  split
  · exact h.pure _
  · exact h.bind h.advance fun _ => h.bind (hitem _) fun _ => h.pure _

/-- Items behind chosen tokens, of which the end of the file is none. -/
theorem Parser.Inherited.row {choose : TokenKind → Option β} {item : β → Parser α}
    (hchoose : Punctual choose) (hfront : ∀ choice, Parser.TakesFront (item choice))
    (hitem : ∀ choice, P α (item choice)) :
    P (List α) (Parser.collect (Parser.after? choose item)) :=
  h.collect (Parser.takesFront_after? hfront) (Parser.consumes_after? hchoose hfront)
    (h.after? choose hitem)

theorem Parser.Inherited.parenthesized (opening closing : String) {item : Parser α}
    (hfront : Parser.TakesFront item) (hitem : P α item) :
    P (List α) (Parser.parenthesized opening closing item) := by
  have hclosing : ∀ items : List α, P (List α) (do
      Parser.expect .rightParen closing
      return items) :=
    fun _ => h.bind (h.expect _ _) fun _ => h.pure _
  have hitems : P (List α) (Parser.commaSeparated item) :=
    h.bind hitem fun _ => h.bind (h.row (punctual_chooseMark _) (fun _ => hfront)
      fun _ => hitem) fun _ => h.pure _
  refine h.bind (h.expect _ _) fun _ => h.bind (h.sees _) fun seen => ?_
  dsimp only
  split
  · exact h.bind (h.pure _) hclosing
  · exact h.bind hitems hclosing

theorem Parser.Inherited.ident : P Ident Parser.ident := by
  refine h.peek fun token _ => ?_
  split
  · exact h.bind h.advance fun _ => h.pure _
  · exact h.unexpected _

end Steps

section Expr

theorem Parser.Inherited.loc : P Expr Parser.loc :=
  h.bind h.ident fun _ => h.bind (h.row (punctual_chooseMark _)
    (fun _ => Parser.takesFront_ident) fun _ => h.ident) fun _ => h.pure _

section Nested

variable {expr : Parser Expr} (hfront : Parser.TakesFront expr) (hexpr : P Expr expr)

include hfront hexpr

theorem Parser.Inherited.call : P Expr (Parser.call expr) :=
  h.bind h.ident fun _ => h.bind (h.parenthesized _ _ hfront hexpr) fun _ => h.pure _

theorem Parser.Inherited.term : P Expr (Parser.term expr) := by
  have hliteral : ∀ literal : Expr, P Expr (do
      Parser.advance
      return literal) := fun _ => h.bind h.advance fun _ => h.pure _
  refine h.peek fun token _ => ?_
  split
  case h_5 =>
    exact h.bind h.advance fun _ => h.bind hexpr fun _ =>
      h.bind (h.expect _ _) fun _ => h.pure _
  case h_6 =>
    refine h.bind (h.peekAt 1) fun next => ?_
    split
    · exact h.call hfront hexpr
    · exact h.loc
  case h_7 => exact h.failHere nofun
  all_goals exact hliteral _

theorem Parser.Inherited.unary : P Expr (Parser.unary expr) :=
  h.bind (h.row punctual_chooseUnary (fun _ => Parser.takesFront_pure _)
    fun _ => h.pure _) fun _ => h.bind (h.term hfront hexpr) fun _ => h.pure _

omit hfront hexpr in
theorem Parser.Inherited.chain (level : Level) {choose : TokenKind → Option BinaryOp}
    (hlevel : level.operator? = some choose) {operand : Parser Expr}
    (hfront : Parser.TakesFront operand) (hoperand : P Expr operand) :
    P Expr (Parser.chain choose operand) :=
  h.bind hoperand fun _ => h.bind (h.row (Level.punctual_of_operator? hlevel)
    (Parser.takesFront_operand hfront) fun _ => h.bind hoperand fun _ => h.pure _)
      fun _ => h.pure _

theorem Parser.Inherited.additive : P Expr (Parser.additive expr) :=
  h.chain .sum rfl (Parser.takesFront_multiplicative hfront)
    (h.chain .product rfl (Parser.takesFront_unary hfront) (h.unary hfront hexpr))

theorem Parser.Inherited.relational : P Expr (Parser.relational expr) := by
  have hside := h.additive hfront hexpr
  refine h.bind hside fun lhs => h.bind (h.after? _ fun _ => h.bind hside fun _ =>
    h.pure _) fun compared => ?_
  split
  · exact h.pure _
  · refine h.peek fun token _ => ?_
    split
    · exact h.failHere nofun
    · exact h.pure _

theorem Parser.Inherited.disjunction : P Expr (Parser.disjunction expr) :=
  h.chain .disjunction rfl (Parser.takesFront_conjunction hfront)
    (h.chain .conjunction rfl (Parser.takesFront_relational hfront)
      (h.relational hfront hexpr))

theorem Parser.Inherited.assignment : P Expr (Parser.assignment expr) := by
  refine h.bind (h.disjunction hfront hexpr) fun lhs => h.peek fun token htoken => ?_
  split
  · refine h.bind h.advance fun _ => ?_
    split
    · exact h.bind hexpr fun _ => h.pure _
    · exact h.throw _ token nofun htoken
  · exact h.pure _

end Nested

theorem Parser.Inherited.expr : P Expr Parser.expr :=
  h.fix Parser.progressive_assignment fun _ => h.assignment

end Expr

section Declarations

theorem Parser.Inherited.type : P TypeNode Parser.type := by
  refine h.peek fun token _ => ?_
  split
  · exact h.bind h.advance fun _ => h.pure _
  · exact h.bind h.advance fun _ => h.pure _
  · exact h.bind h.advance fun _ => h.pure _
  · exact h.bind h.advance fun _ => h.bind h.ident fun _ => h.pure _
  · exact h.unexpected _

theorem Parser.Inherited.varDecl : P Decl Parser.varDecl :=
  h.bind h.type fun _ => h.bind h.ident fun _ => h.bind (h.expect _ _) fun _ => h.pure _

theorem Parser.Inherited.formal : P Formal Parser.formal :=
  h.bind h.type fun _ => h.bind h.ident fun _ => h.pure _

theorem Parser.Inherited.field? : P (Option Decl) Parser.field? := by
  refine h.peek fun token _ => ?_
  dsimp only
  split
  · exact h.pure _
  · split
    · exact h.bind h.varDecl fun _ => h.pure _
    · exact h.unexpected _

theorem Parser.Inherited.fields (name : String) : P (List Decl) (Parser.fields name) := by
  refine h.bind (h.collect Parser.takesFront_field? Parser.consumes_field? h.field?)
    fun fields => ?_
  split
  · exact h.failHere nofun
  · exact h.pure _

theorem Parser.Inherited.structDecl : P Decl Parser.structDecl :=
  h.bind h.advance fun _ => h.bind h.ident fun _ => h.bind (h.expect _ _) fun _ =>
    h.bind (h.fields _) fun _ => h.bind (h.expect _ _) fun _ =>
      h.bind (h.expect _ _) fun _ => h.pure _

end Declarations

section Statements

theorem Parser.Inherited.condition : P Expr Parser.condition :=
  h.bind (h.expect _ _) fun _ => h.bind h.expr fun _ =>
    h.bind (h.expect _ _) fun _ => h.pure _

theorem Parser.Inherited.storeStep {token : Token} (htoken : seen token) (expr : Expr) :
    P Stmt (Parser.storeStep token.span expr) := by
  unfold Parser.storeStep
  split
  · exact h.pure _
  · exact h.pure _
  · split
    · refine h.bind (h.accept _) fun up => ?_
      split
      · exact h.pure _
      · refine h.bind (h.accept _) fun down => ?_
        split
        · exact h.pure _
        · exact h.unexpected _
    · exact h.throw _ token nofun htoken

theorem Parser.Inherited.exprStmt : P Stmt Parser.exprStmt :=
  h.peek fun _ htoken => h.bind h.expr fun _ => h.bind (h.storeStep htoken _) fun _ =>
    h.bind (h.expect _ _) fun _ => h.pure _

theorem Parser.Inherited.returnValue? : P (Option Expr) Parser.returnValue? := by
  refine h.bind (h.sees _) fun seen => ?_
  split
  · exact h.pure _
  · exact h.bind h.expr fun _ => h.pure _

theorem Parser.Inherited.blockVariable? : P (Option Decl) Parser.blockVariable? := by
  refine h.peek fun token _ => ?_
  split
  · exact h.bind h.varDecl fun _ => h.pure _
  · exact h.pure _

section Nested

variable {block : Parser Block} (hblock : P Block block)

include hblock

theorem Parser.Inherited.stmt : P Stmt (Parser.stmt block) := by
  refine h.peek fun token _ => ?_
  split
  · exact h.bind h.advance fun _ => h.bind (h.expect _ _) fun _ => h.bind h.loc fun _ =>
      h.bind (h.expect _ _) fun _ => h.pure _
  · exact h.bind h.advance fun _ => h.bind (h.expect _ _) fun _ => h.bind h.expr fun _ =>
      h.bind (h.expect _ _) fun _ => h.pure _
  · refine h.bind h.advance fun _ => h.bind h.condition fun _ => h.bind hblock fun _ =>
      h.peek fun next _ => ?_
    split
    · exact h.bind h.advance fun _ => h.bind hblock fun _ => h.pure _
    · exact h.pure _
  · exact h.bind h.advance fun _ => h.bind h.condition fun _ =>
      h.bind hblock fun _ => h.pure _
  · exact h.bind h.advance fun _ => h.bind h.returnValue? fun _ =>
      h.bind (h.expect _ _) fun _ => h.pure _
  · exact h.exprStmt

theorem Parser.Inherited.blockStmt? : P (Option Stmt) (Parser.blockStmt? block) := by
  refine h.peek fun token _ => ?_
  dsimp only
  split
  · exact h.pure _
  · split
    · exact h.unexpected _
    · exact h.bind (h.stmt hblock) fun _ => h.pure _

theorem Parser.Inherited.blockBody (hfront : Parser.TakesFront block) :
    P Block (Parser.blockBody block) := by
  have hvariables := h.collect Parser.takesFront_blockVariable?
    Parser.consumes_blockVariable? h.blockVariable?
  have hstmts := h.collect (Parser.takesFront_blockStmt? hfront)
    (Parser.consumes_blockStmt? hfront) (h.blockStmt? hblock)
  exact h.bind (h.expect _ _) fun _ => h.bind hvariables fun _ => h.bind hstmts fun _ =>
    h.bind (h.expect _ _) fun _ => h.pure _

end Nested

theorem Parser.Inherited.block : P Block Parser.block :=
  h.fix Parser.progressive_blockBody fun _ hfront hblock => h.blockBody hblock hfront

end Statements

section Program

theorem Parser.Inherited.functionRest (result : TypeNode) (id : Ident) :
    P Decl (Parser.functionRest result id) :=
  h.bind (h.parenthesized _ _ Parser.takesFront_formal h.formal) fun _ =>
    h.bind h.block fun _ => h.pure _

theorem Parser.Inherited.atStructDecl : P Bool Parser.atStructDecl := by
  refine h.bind (h.peekAt 1) fun next => ?_
  split
  · exact h.bind (h.peekAt 2) fun _ => h.pure _
  · exact h.pure _

theorem Parser.Inherited.decl : P Decl Parser.decl := by
  refine h.peek fun token _ => ?_
  split
  · refine h.bind h.atStructDecl fun declared => ?_
    split
    · exact h.structDecl
    · exact h.varDecl
  · refine h.bind h.type fun type => h.bind h.ident fun id => h.bind (h.sees _)
      fun seen => ?_
    split
    · exact h.functionRest type id
    · exact h.bind (h.expect _ _) fun _ => h.pure _

theorem Parser.Inherited.decl? : P (Option Decl) Parser.decl? := by
  refine h.peek fun token _ => ?_
  split
  · exact h.pure _
  · exact h.bind h.decl fun _ => h.pure _

theorem Parser.Inherited.program : P Program Parser.program :=
  h.bind (h.collect Parser.takesFront_decl? Parser.consumes_decl? h.decl?)
    fun _ => h.pure _

end Program

/-- What is asked of a parser is put together from the same. -/
theorem Parser.Inherited.request (request : Request) : P Phrase request.parser := by
  cases request with
  | program => exact h.bind h.program fun _ => h.pure _
  | expr => exact h.bind h.expr fun _ => h.pure _

end Inherited

end MiniLang

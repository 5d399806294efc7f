/-
Tokens that say the same in other places. Two parsers that are given tokens of the same
kinds go side by side. Main statement: asked the same things, they answer with trees that
differ in their places only or fail for the same reason at the same token, and they always
stop at the same position.
-/
import MiniLang.Grammar.Session
import MiniLang.Proofs.Grammar.Soundness
import MiniLang.Tree.Relabel
import Mathlib

namespace MiniLang

variable {α β γ δ : Type}

/-- Whether two spans are those of the tokens at the same index of two lists. -/
def SamePlace (tokens others : List Token) (span other : Span) : Prop :=
  ∃ (index : Nat) (token twin : Token), tokens[index]? = some token ∧
    others[index]? = some twin ∧ span = token.span ∧ other = twin.span

/-- Two lists of tokens of the same kinds, up to the end of the file. -/
structure Twins where
  tokens : List Token
  others : List Token
  kinds : tokens.map Token.kind = others.map Token.kind
  closed : Closed tokens

theorem Twins.length_eq (twins : Twins) : twins.tokens.length = twins.others.length := by
  simpa using congrArg List.length twins.kinds

variable {twins : Twins}

/-- Whether two lists of tokens are what is left at the same position of twins. -/
def Twins.Abreast (twins : Twins) (rest rest' : List Token) : Prop :=
  ∃ position < twins.tokens.length, rest = twins.tokens.drop position ∧
    rest' = twins.others.drop position

/-- Whether two parsers say the same of twins in the same position. Answers are compared
without what `erase` takes away, and errors without their places. -/
inductive Twins.Lockstep (twins : Twins) (erase : α → γ) :
    EStateM.Result SyntaxError (List Token) α →
      EStateM.Result SyntaxError (List Token) α → Prop where
  | answer {answer answer' : α} {rest rest' : List Token}
      (same : erase answer = erase answer') (abreast : twins.Abreast rest rest') :
      twins.Lockstep erase (.ok answer rest) (.ok answer' rest')
  | error {error error' : SyntaxError} {rest rest' : List Token}
      (fault : error.fault = error'.fault)
      (place : SamePlace twins.tokens twins.others error.span error'.span)
      (abreast : twins.Abreast rest rest') :
      twins.Lockstep erase (.error error rest) (.error error' rest')

theorem Twins.Lockstep.abreast {erase : α → γ}
    {result result' : EStateM.Result SyntaxError (List Token) α}
    (h : twins.Lockstep erase result result') :
    twins.Abreast (tokensLeft result) (tokensLeft result') := by
  cases h with
  | answer _ abreast => exact abreast
  | error _ _ abreast => exact abreast

theorem Twins.Lockstep.samePlace {erase : α → γ} {error error' : SyntaxError}
    {rest rest' : List Token}
    (h : twins.Lockstep erase (.error error rest) (.error error' rest')) :
    SamePlace twins.tokens twins.others error.span error'.span := by
  cases h with
  | error _ place _ => exact place

/-- Whether two parsers that start side by side go on so. -/
def Twins.Parallel (twins : Twins) (erase : α → γ) (p q : Parser α) : Prop :=
  ∀ rest rest', twins.Abreast rest rest' → twins.Lockstep erase (p rest) (q rest')

/-- Whether a parser goes on side by side with itself. -/
abbrev Twins.Keeps (twins : Twins) (erase : α → γ) (p : Parser α) : Prop :=
  twins.Parallel erase p p

theorem nextToken_kind_eq {tokens others : List Token}
    (h : tokens.map Token.kind = others.map Token.kind) :
    (nextToken tokens).kind = (nextToken others).kind := by
  cases tokens <;> cases others <;> simp_all [nextToken]

theorem Twins.Abreast.kinds {rest rest' : List Token} (h : twins.Abreast rest rest') :
    rest.map Token.kind = rest'.map Token.kind := by
  obtain ⟨position, _, rfl, rfl⟩ := h
  rw [List.map_drop, List.map_drop, twins.kinds]

/-- Side by side, the next tokens are of one kind, and the tokens behind them are side by
side again. -/
theorem Twins.Abreast.exists_cons {rest rest' : List Token} (h : twins.Abreast rest rest') :
    ∃ token twin behind behind', rest = token :: behind ∧ rest' = twin :: behind' ∧
      token.kind = twin.kind ∧
      SamePlace twins.tokens twins.others token.span twin.span ∧
      (token.isEof = false → twins.Abreast behind behind') := by
  have hkinds := h.kinds
  obtain ⟨position, hposition, rfl, rfl⟩ := h
  have hother : position < twins.others.length := twins.length_eq ▸ hposition
  have hclosed := twins.closed.drop hposition
  rw [List.drop_eq_getElem_cons hposition] at hkinds hclosed
  rw [List.drop_eq_getElem_cons hother] at hkinds
  have hplace : SamePlace twins.tokens twins.others twins.tokens[position].span
      twins.others[position].span :=
    ⟨position, _, _, List.getElem?_eq_getElem hposition, List.getElem?_eq_getElem hother,
      rfl, rfl⟩
  refine ⟨_, _, _, _, List.drop_eq_getElem_cons hposition, List.drop_eq_getElem_cons hother,
    (List.cons.inj hkinds).1, hplace, fun htoken => ⟨position + 1, ?_, rfl, rfl⟩⟩
  -- The end of the file is still to come.
  obtain ⟨last, behind, hbehind⟩ := (hclosed.tail htoken).exists_cons
  have hcount := congrArg List.length hbehind
  rw [List.length_drop, List.length_cons] at hcount
  omega

section Combinators

variable {erase : α → γ} {erase' : β → δ}

theorem Twins.Parallel.pure {answer answer' : α} (h : erase answer = erase answer') :
    twins.Parallel erase (Pure.pure answer : Parser α) (Pure.pure answer') :=
  fun _ _ habreast => .answer h habreast

theorem Twins.Parallel.throw {error error' : SyntaxError} (hfault : error.fault = error'.fault)
    (hplace : SamePlace twins.tokens twins.others error.span error'.span) :
    twins.Parallel erase (MonadExcept.throw error : Parser α) (MonadExcept.throw error') :=
  fun _ _ habreast => .error hfault hplace habreast

theorem Twins.Parallel.bind {p q : Parser α} {f g : α → Parser β}
    (hp : twins.Parallel erase p q)
    (hf : ∀ answer answer', erase answer = erase answer' →
      twins.Parallel erase' (f answer) (g answer')) :
    twins.Parallel erase' (p >>= f) (q >>= g) := by
  intro rest rest' habreast
  have hfirst := hp rest rest' habreast
  generalize hread : p rest = first at hfirst
  generalize hread' : q rest' = first' at hfirst
  cases hfirst with
  | answer same abreast =>
      rw [Parser.bind_of_ok hread, Parser.bind_of_ok hread']
      exact hf _ _ same _ _ abreast
  | error fault place abreast =>
      rw [Parser.bind_of_error hread, Parser.bind_of_error hread']
      exact .error fault place abreast

/-- What is answered in full is the same on both sides. -/
theorem Twins.Parallel.andThen {p q : Parser α} {f g : α → Parser β}
    (hp : twins.Parallel id p q) (hf : ∀ answer, twins.Parallel erase' (f answer) (g answer)) :
    twins.Parallel erase' (p >>= f) (q >>= g) := by
  refine hp.bind fun answer answer' h => ?_
  obtain rfl : answer = answer' := h
  exact hf answer

theorem Twins.Parallel.peek {f g : Token → Parser α}
    (h : ∀ token twin : Token, token.kind = twin.kind →
      SamePlace twins.tokens twins.others token.span twin.span →
      twins.Parallel erase (f token) (g twin)) :
    twins.Parallel erase (Parser.peek >>= f) (Parser.peek >>= g) := by
  intro rest rest' habreast
  obtain ⟨token, twin, behind, behind', rfl, rfl, hkind, hplace, -⟩ := habreast.exists_cons
  exact h token twin hkind hplace _ _ habreast

theorem Twins.Parallel.fix {body : Parser α → Parser α} (hbody : Parser.Progressive body)
    (hkeep : ∀ p, Parser.TakesFront p → twins.Keeps erase p → twins.Keeps erase (body p)) :
    twins.Keeps erase (Parser.fix body) := by
  intro rest rest' habreast
  obtain ⟨p, _, hp, hagree⟩ := Parser.exists_agreeBelow hbody
    (Parser.takesFront_failHere default)
    (.peek fun _ _ _ hplace => .throw rfl hplace) hkeep (rest.length + rest'.length + 1)
  rw [← hagree rest (by omega), ← hagree rest' (by omega)]
  exact hp rest rest' habreast

end Combinators

section Steps

variable {erase : α → γ}

theorem Twins.failHere (fault : SyntaxFault) : twins.Keeps erase (Parser.failHere fault) :=
  .peek fun _ _ _ hplace => .throw rfl hplace

theorem Twins.unexpected (wanted : Wanted) : twins.Keeps erase (Parser.unexpected wanted) :=
  .peek fun _ _ hkind _ => hkind ▸ twins.failHere _

theorem Twins.advance : twins.Keeps id Parser.advance := by
  intro rest rest' habreast
  obtain ⟨token, twin, behind, behind', rfl, rfl, hkind, -, hbehind⟩ := habreast.exists_cons
  have heof : twin.isEof = token.isEof := by rw [Token.isEof, Token.isEof, hkind]
  refine .answer rfl ?_
  rw [afterNext, afterNext, heof]
  split
  · exact habreast
  · exact hbehind (by simpa using ‹¬token.isEof = true›)

theorem Twins.sees (mark : Punct) : twins.Keeps id (Parser.sees mark) :=
  .peek fun _ _ hkind _ => .pure (congrArg (· == TokenKind.punct mark) hkind)

theorem Twins.peekAt (offset : Nat) : twins.Keeps id (Parser.peekAt offset) := by
  intro rest rest' habreast
  refine .answer (nextToken_kind_eq ?_) habreast
  rw [List.map_drop, List.map_drop, habreast.kinds]

theorem Twins.accept (mark : Punct) : twins.Keeps id (Parser.accept mark) := by
  refine (twins.sees mark).andThen fun seen => ?_
  split
  · exact twins.advance.andThen fun _ => .pure rfl
  · exact .pure rfl

theorem Twins.expect (mark : Punct) (context : String) :
    twins.Keeps id (Parser.expect mark context) := by
  refine (twins.sees mark).andThen fun seen => ?_
  split
  · exact twins.advance
  · exact twins.unexpected _

theorem Twins.collect {step : Parser (Option α)} (hfront : Parser.TakesFront step)
    (hconsumes : Parser.Consumes (·.isSome) step)
    (hstep : twins.Keeps (Option.map erase) step) :
    twins.Keeps (List.map erase) (Parser.collect step) := by
  refine .fix (Parser.progressive_round hfront hconsumes) fun more _ hmore =>
    hstep.bind fun answer answer' hsame => ?_
  cases answer with
  | none =>
      obtain rfl := Option.map_eq_none_iff.mp hsame.symm
      exact .pure rfl
  | some item =>
      obtain ⟨item', rfl, hitem⟩ := Option.map_eq_some_iff.mp hsame.symm
      exact hmore.bind fun _ _ hitems => .pure (congrArg₂ List.cons hitem.symm hitems)

theorem Twins.after? (choose : TokenKind → Option β) {item : β → Parser α}
    (hitem : ∀ choice, twins.Keeps erase (item choice)) :
    twins.Keeps (Option.map erase) (Parser.after? choose item) := by
  refine .peek fun token twin hkind _ => ?_
  rw [← hkind]
  split
  · exact .pure rfl
  · exact twins.advance.andThen fun _ => (hitem _).bind fun _ _ hsame =>
      .pure (congrArg some hsame)

theorem Twins.row {choose : TokenKind → Option β} {item : β → Parser α}
    (hchoose : Punctual choose) (hfront : ∀ choice, Parser.TakesFront (item choice))
    (hitem : ∀ choice, twins.Keeps erase (item choice)) :
    twins.Keeps (List.map erase) (Parser.collect (Parser.after? choose item)) :=
  twins.collect (Parser.takesFront_after? hfront) (Parser.consumes_after? hchoose hfront)
    (twins.after? choose hitem)

theorem Twins.parenthesized (opening closing : String) {item : Parser α}
    (hfront : Parser.TakesFront item) (hitem : twins.Keeps erase item) :
    twins.Keeps (List.map erase) (Parser.parenthesized opening closing item) := by
  have hclosing : ∀ items items' : List α, items.map erase = items'.map erase →
      twins.Parallel (List.map erase)
        (do Parser.expect .rightParen closing; return items)
        (do Parser.expect .rightParen closing; return items') :=
    fun _ _ hsame => (twins.expect _ _).andThen fun _ => .pure hsame
  have hitems : twins.Keeps (List.map erase) (Parser.commaSeparated item) :=
    hitem.bind fun _ _ hfirst => (twins.row (punctual_chooseMark _) (fun _ => hfront)
      fun _ => hitem).bind fun _ _ hothers => .pure (congrArg₂ List.cons hfirst hothers)
  refine (twins.expect _ _).andThen fun _ => (twins.sees _).andThen fun seen => ?_
  dsimp only
  split
  · exact hclosing [] [] rfl
  · exact hitems.bind hclosing

theorem Twins.ident : twins.Keeps Ident.unplaced Parser.ident := by
  refine .peek fun token twin hkind _ => ?_
  rw [← hkind]
  split
  · exact twins.advance.andThen fun _ => .pure rfl
  · exact twins.unexpected _

end Steps

section Expr

theorem Expr.unplaced_dots (fields : List Ident) (loc : Expr) :
    (fields.foldl .dot loc).unplaced =
      (fields.map Ident.unplaced).foldl .dot loc.unplaced := by
  rw [List.foldl_map]
  exact (List.foldl_hom Expr.unplaced fun _ _ => rfl).symm

theorem Expr.unplaced_unaries (ops : List UnaryOp) (operand : Expr) :
    (ops.foldr .unary operand).unplaced = ops.foldr .unary operand.unplaced := by
  induction ops with
  | nil => rfl
  | cons op ops ih => exact congrArg (Expr.unary op) ih

theorem Expr.unplaced_binaries (others : List (BinaryOp × Expr)) (first : Expr) :
    (others.foldl (fun lhs other => .binary other.1 lhs other.2) first).unplaced =
      (others.map (Prod.map id Expr.unplaced)).foldl
        (fun lhs other => .binary other.1 lhs other.2) first.unplaced := by
  rw [List.foldl_map]
  exact (List.foldl_hom Expr.unplaced fun _ _ => rfl).symm

theorem Twins.loc : twins.Keeps Expr.unplaced Parser.loc := by
  have hfields := twins.row (punctual_chooseMark .dot) (fun _ => Parser.takesFront_ident)
    fun _ => twins.ident
  refine twins.ident.bind fun id id' hid => hfields.bind fun fields fields' hsame => .pure ?_
  have hname : (Expr.name id).unplaced = (Expr.name id').unplaced := congrArg Expr.name hid
  rw [Expr.unplaced_dots, Expr.unplaced_dots, hsame, hname]

/-- Operands behind the same operator. -/
theorem Twins.operand {operand : Parser Expr}
    (hoperand : twins.Keeps Expr.unplaced operand) (op : BinaryOp) :
    twins.Keeps (Prod.map id Expr.unplaced) (do return (op, ← operand)) :=
  hoperand.bind fun _ _ hsame => .pure (congrArg (Prod.mk op) hsame)

section Nested

variable {expr : Parser Expr} (hfront : Parser.TakesFront expr)
  (hexpr : twins.Keeps Expr.unplaced expr)

include hfront hexpr

theorem Twins.call : twins.Keeps Expr.unplaced (Parser.call expr) := by
  refine twins.ident.bind fun callee callee' hcallee =>
    (twins.parenthesized _ _ hfront hexpr).bind fun args args' hargs => .pure ?_
  rw [Expr.unplaced_call, Expr.unplaced_call, hcallee, hargs]

theorem Twins.term : twins.Keeps Expr.unplaced (Parser.term expr) := by
  refine .peek fun token twin hkind _ => ?_
  rw [← hkind]
  split
  case h_5 =>
    exact twins.advance.andThen fun _ => hexpr.bind fun _ _ hinner =>
      (twins.expect _ _).andThen fun _ => .pure hinner
  case h_6 =>
    refine (twins.peekAt 1).andThen fun kind => ?_
    split
    · exact twins.call hfront hexpr
    · exact twins.loc
  case h_7 => exact twins.failHere _
  all_goals exact twins.advance.andThen fun _ => .pure rfl

theorem Twins.unary : twins.Keeps Expr.unplaced (Parser.unary expr) := by
  have hops : twins.Keeps (List.map id)
      (Parser.collect (Parser.after? chooseUnary Pure.pure)) :=
    twins.row punctual_chooseUnary (fun _ => Parser.takesFront_pure _) fun _ => .pure rfl
  rw [List.map_id_fun] at hops
  refine hops.andThen fun ops => (twins.term hfront hexpr).bind fun _ _ hoperand => .pure ?_
  rw [Expr.unplaced_unaries, Expr.unplaced_unaries, hoperand]

omit hfront hexpr in
theorem Twins.chain (level : Level) {choose : TokenKind → Option BinaryOp}
    (hlevel : level.operator? = some choose) {operand : Parser Expr}
    (hfront : Parser.TakesFront operand)
    (hoperand : twins.Keeps Expr.unplaced operand) :
    twins.Keeps Expr.unplaced (Parser.chain choose operand) := by
  have hothers := twins.row (Level.punctual_of_operator? hlevel)
    (Parser.takesFront_operand hfront) (twins.operand hoperand)
  refine hoperand.bind fun _ _ hfirst => hothers.bind fun _ _ hsame => .pure ?_
  rw [Expr.unplaced_binaries, Expr.unplaced_binaries, hfirst, hsame]

theorem Twins.additive : twins.Keeps Expr.unplaced (Parser.additive expr) :=
  twins.chain .sum rfl (Parser.takesFront_multiplicative hfront)
    (twins.chain .product rfl (Parser.takesFront_unary hfront) (twins.unary hfront hexpr))

theorem Twins.relational : twins.Keeps Expr.unplaced (Parser.relational expr) := by
  have hside := twins.additive hfront hexpr
  have hcompared := twins.after? chooseRelational (twins.operand hside)
  refine hside.bind fun lhs lhs' hlhs => hcompared.bind fun compared compared' hsame => ?_
  cases compared with
  | none =>
      obtain rfl := Option.map_eq_none_iff.mp hsame.symm
      exact .pure hlhs
  | some other =>
      obtain ⟨other', rfl, hother⟩ := Option.map_eq_some_iff.mp hsame.symm
      obtain ⟨op, rhs⟩ := other
      obtain ⟨op', rhs'⟩ := other'
      obtain ⟨rfl, hrhs⟩ := Prod.mk.inj hother
      refine .peek fun token twin hkind _ => ?_
      rw [← hkind]
      split
      · exact twins.failHere _
      · exact .pure (congrArg₂ (Expr.binary _) hlhs hrhs.symm)

theorem Twins.disjunction : twins.Keeps Expr.unplaced (Parser.disjunction expr) :=
  twins.chain .disjunction rfl (Parser.takesFront_conjunction hfront)
    (twins.chain .conjunction rfl (Parser.takesFront_relational hfront)
      (twins.relational hfront hexpr))

theorem Twins.assignment : twins.Keeps Expr.unplaced (Parser.assignment expr) := by
  refine (twins.disjunction hfront hexpr).bind fun lhs lhs' hlhs =>
    .peek fun token twin hkind hplace => ?_
  rw [← hkind]
  split
  · refine twins.advance.andThen fun _ => ?_
    rw [← Expr.isLocation_unplaced lhs, hlhs, Expr.isLocation_unplaced]
    split
    · exact hexpr.bind fun _ _ hrhs => .pure (congrArg₂ Expr.assign hlhs hrhs)
    · exact .throw rfl hplace
  · exact .pure hlhs

end Nested

theorem Twins.expr : twins.Keeps Expr.unplaced Parser.expr :=
  .fix Parser.progressive_assignment fun _ => twins.assignment

end Expr

section Declarations

theorem Twins.type : twins.Keeps TypeNode.unplaced Parser.type := by
  refine .peek fun token twin hkind _ => ?_
  rw [← hkind]
  split
  case h_4 =>
    exact twins.advance.andThen fun _ => twins.ident.bind fun _ _ hid =>
      .pure (congrArg TypeNode.struct hid)
  case h_5 => exact twins.unexpected _
  all_goals exact twins.advance.andThen fun _ => .pure rfl

theorem Twins.varDecl : twins.Keeps Decl.unplaced Parser.varDecl :=
  twins.type.bind fun _ _ htype => twins.ident.bind fun _ _ hid =>
    (twins.expect _ _).andThen fun _ => .pure (congrArg₂ Decl.var htype hid)

theorem Twins.formal : twins.Keeps Formal.unplaced Parser.formal :=
  twins.type.bind fun _ _ htype => twins.ident.bind fun _ _ hid =>
    .pure (congrArg₂ Formal.mk htype hid)

theorem Twins.field? : twins.Keeps (Option.map Decl.unplaced) Parser.field? := by
  refine .peek fun token twin hkind _ => ?_
  dsimp only
  rw [← hkind]
  split
  · exact .pure rfl
  · split
    · exact twins.varDecl.bind fun _ _ hfield => .pure (congrArg some hfield)
    · exact twins.unexpected _

theorem Twins.fields (name : String) :
    twins.Keeps (List.map Decl.unplaced) (Parser.fields name) := by
  refine (twins.collect Parser.takesFront_field? Parser.consumes_field? twins.field?).bind
    fun fields fields' hfields => ?_
  have hempty : fields.isEmpty = fields'.isEmpty := by
    rw [← List.isEmpty_map (f := Decl.unplaced), hfields, List.isEmpty_map]
  rw [hempty]
  split
  · exact twins.failHere _
  · exact .pure hfields

theorem Twins.structDecl : twins.Keeps Decl.unplaced Parser.structDecl := by
  refine twins.advance.andThen fun _ => twins.ident.bind fun id id' hid =>
    (twins.expect _ _).andThen fun _ => ?_
  have hname : id.name = id'.name := (Ident.mk.inj hid).1
  rw [hname]
  refine (twins.fields _).bind fun fields fields' hfields =>
    (twins.expect _ _).andThen fun _ => (twins.expect _ _).andThen fun _ => .pure ?_
  rw [Decl.unplaced_struct, Decl.unplaced_struct, hid, hfields]

end Declarations

section Statements

theorem Twins.condition : twins.Keeps Expr.unplaced Parser.condition :=
  (twins.expect _ _).andThen fun _ => twins.expr.bind fun _ _ hcond =>
    (twins.expect _ _).andThen fun _ => .pure hcond

/-- The statement that an expression is without anything behind it. -/
def Expr.stmt? : Expr → Option Stmt
  | .assign lhs rhs => some (.assign (.assign lhs rhs))
  | .call callee args => some (.call callee args)
  | _ => none

theorem Expr.stmt?_unplaced (expr : Expr) :
    expr.unplaced.stmt? = expr.stmt?.map Stmt.unplaced := by
  cases expr with
  | call callee args => rw [Expr.unplaced_call]; rfl
  | _ => rfl

theorem Parser.storeStep_of_stmt? {expr : Expr} {stmt : Stmt} (h : expr.stmt? = some stmt)
    (start : Span) : Parser.storeStep start expr = Pure.pure stmt := by
  cases expr <;> cases h <;> rfl

theorem Parser.storeStep_of_not {expr : Expr} (h : expr.stmt? = none)
    (hlocation : expr.isLocation = false) (start : Span) :
    Parser.storeStep start expr = MonadExcept.throw ⟨.notStatement, start⟩ := by
  cases expr with
  | assign lhs rhs => cases h
  | call callee args => cases h
  | name id => cases hlocation
  | dot loc field => cases hlocation
  | _ => rfl

theorem Twins.storeStep {start start' : Span} {expr expr' : Expr}
    (hplace : SamePlace twins.tokens twins.others start start')
    (hexpr : expr.unplaced = expr'.unplaced) :
    twins.Parallel Stmt.unplaced (Parser.storeStep start expr)
      (Parser.storeStep start' expr') := by
  have hstmts : expr.stmt?.map Stmt.unplaced = expr'.stmt?.map Stmt.unplaced := by
    rw [← Expr.stmt?_unplaced, hexpr, Expr.stmt?_unplaced]
  have hlocations : expr.isLocation = expr'.isLocation := by
    rw [← Expr.isLocation_unplaced, hexpr, Expr.isLocation_unplaced]
  cases hstmt : expr.stmt? with
  | some stmt =>
      rw [hstmt] at hstmts
      obtain ⟨stmt', hstmt', hsame⟩ := Option.map_eq_some_iff.mp hstmts.symm
      rw [Parser.storeStep_of_stmt? hstmt, Parser.storeStep_of_stmt? hstmt']
      exact .pure hsame.symm
  | none =>
      rw [hstmt] at hstmts
      have hstmt' := Option.map_eq_none_iff.mp hstmts.symm
      cases hlocation : expr.isLocation with
      | false =>
          rw [Parser.storeStep_of_not hstmt hlocation,
            Parser.storeStep_of_not hstmt' (hlocations ▸ hlocation)]
          exact .throw rfl hplace
      | true =>
          rw [Parser.storeStep_of_isLocation hlocation,
            Parser.storeStep_of_isLocation (hlocations ▸ hlocation)]
          refine (twins.accept _).andThen fun up => ?_
          split
          · exact .pure (congrArg Stmt.inc hexpr)
          · refine (twins.accept _).andThen fun down => ?_
            split
            · exact .pure (congrArg Stmt.dec hexpr)
            · exact twins.unexpected _

theorem Twins.exprStmt : twins.Keeps Stmt.unplaced Parser.exprStmt :=
  .peek fun _ _ _ hplace => twins.expr.bind fun _ _ hexpr =>
    (twins.storeStep hplace hexpr).bind fun _ _ hstmt =>
      (twins.expect _ _).andThen fun _ => .pure hstmt

theorem Twins.returnValue? :
    twins.Keeps (Option.map Expr.unplaced) Parser.returnValue? := by
  refine (twins.sees _).andThen fun seen => ?_
  split
  · exact .pure rfl
  · exact twins.expr.bind fun _ _ hvalue => .pure (congrArg some hvalue)

theorem Twins.blockVariable? :
    twins.Keeps (Option.map Decl.unplaced) Parser.blockVariable? := by
  refine .peek fun token twin hkind _ => ?_
  rw [← hkind]
  split
  · exact twins.varDecl.bind fun _ _ hdecl => .pure (congrArg some hdecl)
  · exact .pure rfl

section Nested

variable {block : Parser Block} (hblock : twins.Keeps Block.unplaced block)

include hblock

theorem Twins.stmt : twins.Keeps Stmt.unplaced (Parser.stmt block) := by
  refine .peek fun token twin hkind _ => ?_
  rw [← hkind]
  split
  · exact twins.advance.andThen fun _ => (twins.expect _ _).andThen fun _ =>
      twins.loc.bind fun _ _ hloc => (twins.expect _ _).andThen fun _ =>
        .pure (congrArg Stmt.read hloc)
  · exact twins.advance.andThen fun _ => (twins.expect _ _).andThen fun _ =>
      twins.expr.bind fun _ _ hexpr => (twins.expect _ _).andThen fun _ =>
        .pure (congrArg Stmt.write hexpr)
  · refine twins.advance.andThen fun _ => twins.condition.bind fun cond cond' hcond =>
      hblock.bind fun thenBody thenBody' hthen => .peek fun next next' hnext _ => ?_
    rw [← hnext]
    split
    · refine twins.advance.andThen fun _ => hblock.bind fun elseBody elseBody' helse =>
        .pure ?_
      change Stmt.ifElse cond.unplaced thenBody.unplaced elseBody.unplaced =
        .ifElse cond'.unplaced thenBody'.unplaced elseBody'.unplaced
      rw [hcond, hthen, helse]
    · exact .pure (congrArg₂ Stmt.ifThen hcond hthen)
  · exact twins.advance.andThen fun _ => twins.condition.bind fun _ _ hcond =>
      hblock.bind fun _ _ hbody => .pure (congrArg₂ Stmt.while_ hcond hbody)
  · exact twins.advance.andThen fun _ => twins.returnValue?.bind fun _ _ hvalue =>
      (twins.expect _ _).andThen fun _ => .pure (congrArg Stmt.ret hvalue)
  · exact twins.exprStmt

theorem Twins.blockStmt? :
    twins.Keeps (Option.map Stmt.unplaced) (Parser.blockStmt? block) := by
  refine .peek fun token twin hkind _ => ?_
  dsimp only
  rw [← hkind]
  split
  · exact .pure rfl
  · split
    · exact twins.unexpected _
    · exact (twins.stmt hblock).bind fun _ _ hstmt => .pure (congrArg some hstmt)

theorem Twins.blockBody (hfront : Parser.TakesFront block) :
    twins.Keeps Block.unplaced (Parser.blockBody block) := by
  have hvariables := twins.collect Parser.takesFront_blockVariable?
    Parser.consumes_blockVariable? twins.blockVariable?
  have hstmts := twins.collect (Parser.takesFront_blockStmt? hfront)
    (Parser.consumes_blockStmt? hfront) (twins.blockStmt? hblock)
  refine (twins.expect _ _).andThen fun _ => hvariables.bind fun decls decls' hdecls =>
    hstmts.bind fun stmts stmts' hstmts => (twins.expect _ _).andThen fun _ => .pure ?_
  rw [Block.unplaced_mk, Block.unplaced_mk, hdecls, hstmts]

end Nested

theorem Twins.block : twins.Keeps Block.unplaced Parser.block :=
  .fix Parser.progressive_blockBody fun _ hfront hblock => twins.blockBody hblock hfront

end Statements

section Program

theorem Twins.functionRest {result result' : TypeNode} {id id' : Ident}
    (hresult : result.unplaced = result'.unplaced) (hid : id.unplaced = id'.unplaced) :
    twins.Parallel Decl.unplaced (Parser.functionRest result id)
      (Parser.functionRest result' id') := by
  refine (twins.parenthesized _ _ Parser.takesFront_formal twins.formal).bind
    fun formals formals' hformals => twins.block.bind fun body body' hbody => .pure ?_
  change Decl.func result.unplaced id.unplaced (formals.map Formal.unplaced) body.unplaced =
    .func result'.unplaced id'.unplaced (formals'.map Formal.unplaced) body'.unplaced
  rw [hresult, hid, hformals, hbody]

theorem Twins.atStructDecl : twins.Keeps id Parser.atStructDecl := by
  refine (twins.peekAt 1).andThen fun kind => ?_
  split
  · exact (twins.peekAt 2).andThen fun _ => .pure rfl
  · exact .pure rfl

theorem Twins.decl : twins.Keeps Decl.unplaced Parser.decl := by
  refine .peek fun token twin hkind _ => ?_
  rw [← hkind]
  split
  · refine twins.atStructDecl.andThen fun isStruct => ?_
    split
    · exact twins.structDecl
    · exact twins.varDecl
  · refine twins.type.bind fun _ _ htype => twins.ident.bind fun _ _ hid =>
      (twins.sees _).andThen fun seen => ?_
    split
    · exact twins.functionRest htype hid
    · exact (twins.expect _ _).andThen fun _ => .pure (congrArg₂ Decl.var htype hid)

theorem Twins.decl? : twins.Keeps (Option.map Decl.unplaced) Parser.decl? := by
  refine .peek fun token twin hkind _ => ?_
  have heof : twin.isEof = token.isEof := by rw [Token.isEof, Token.isEof, hkind]
  rw [heof]
  split
  · exact .pure rfl
  · exact twins.decl.bind fun _ _ hdecl => .pure (congrArg some hdecl)

theorem Twins.program : twins.Keeps Program.unplaced Parser.program :=
  (twins.collect Parser.takesFront_decl? Parser.consumes_decl? twins.decl?).bind
    fun _ _ hdecls => .pure (congrArg Program.mk hdecls)

end Program

/-- An answer without its places. -/
def Phrase.unplaced : Phrase → Phrase
  | .program tree => .program tree.unplaced
  | .expr tree => .expr tree.unplaced

theorem Twins.request (request : Request) : twins.Keeps Phrase.unplaced request.parser := by
  cases request with
  | program => exact twins.program.bind fun _ _ h => .pure (congrArg Phrase.program h)
  | expr => exact twins.expr.bind fun _ _ h => .pure (congrArg Phrase.expr h)

/-- Whether two outcomes tell the same of two lists of tokens: answers that differ in their
places only, or the same fault at the tokens of the same index. -/
inductive SameOutcome (tokens others : List Token) :
    Except SyntaxError Phrase → Except SyntaxError Phrase → Prop where
  | answer {phrase phrase' : Phrase} (same : phrase.unplaced = phrase'.unplaced) :
      SameOutcome tokens others (.ok phrase) (.ok phrase')
  | error {error error' : SyntaxError} (fault : error.fault = error'.fault)
      (place : SamePlace tokens others error.span error'.span) :
      SameOutcome tokens others (.error error) (.error error')

/-- Whether two replies tell the same of two lists of tokens, at the same position. -/
structure SameReply (tokens others : List Token) (reply reply' : Reply) : Prop where
  outcome : SameOutcome tokens others reply.outcome reply'.outcome
  stop : reply.stop = reply'.stop

/-- Asked the same thing at the same position, twins reply the same and stand at the same
token again. -/
theorem Twins.ask (request : Request) {start : Nat} (hstart : start < twins.tokens.length) :
    SameReply twins.tokens twins.others (request.ask twins.tokens start)
        (request.ask twins.others start) ∧
      (request.ask twins.tokens start).stop < twins.tokens.length := by
  have hlength := twins.length_eq
  have hresult := twins.request request _ _ ⟨start, hstart, rfl, rfl⟩
  unfold Request.ask
  generalize request.parser (twins.tokens.drop start) = result at hresult
  generalize request.parser (twins.others.drop start) = result' at hresult
  cases hresult with
  | answer same abreast =>
      obtain ⟨position, hposition, rfl, rfl⟩ := abreast
      simp only [List.length_drop]
      exact ⟨⟨.answer same, by dsimp only; omega⟩, by omega⟩
  | error fault place abreast =>
      obtain ⟨position, hposition, rfl, rfl⟩ := abreast
      simp only [List.length_drop]
      exact ⟨⟨.error fault place, by dsimp only; omega⟩, by omega⟩

theorem Twins.askAll (requests : List Request) {start : Nat}
    (hstart : start < twins.tokens.length) :
    List.Forall₂ (SameReply twins.tokens twins.others)
      (askAll twins.tokens requests start) (askAll twins.others requests start) := by
  induction requests generalizing start with
  | nil => exact .nil
  | cons request requests ih =>
      obtain ⟨hreply, hstop⟩ := twins.ask request hstart
      refine .cons hreply ?_
      rw [← hreply.stop]
      exact ih hstop

/-- An end of the file is added to both of two lists of the same kinds, or to neither. -/
theorem closeTokens_kinds_eq {tokens others : List Token}
    (h : tokens.map Token.kind = others.map Token.kind) :
    (closeTokens tokens).map Token.kind = (closeTokens others).map Token.kind := by
  have hlasts := congrArg List.getLast? h
  rw [List.getLast?_map, List.getLast?_map] at hlasts
  unfold closeTokens
  cases hlast : tokens.getLast? with
  | none =>
      rw [hlast] at hlasts
      rw [Option.map_eq_none_iff.mp hlasts.symm]
  | some last =>
      rw [hlast] at hlasts
      obtain ⟨last', hlast', hkind⟩ := Option.map_eq_some_iff.mp hlasts.symm
      have heof : last'.isEof = last.isEof := by rw [Token.isEof, Token.isEof, hkind]
      rw [hlast']
      dsimp only
      rw [heof]
      split
      · exact h
      · rw [List.map_append, List.map_append, h]
        rfl

/-- Parsers see the kinds of tokens only. For tokens of the same kinds, the replies to the
same requests are the same but for the places, which are those of the same tokens. -/
theorem askAll_sameReply {tokens others : List Token}
    (h : tokens.map Token.kind = others.map Token.kind) (requests : List Request) :
    List.Forall₂ (SameReply (closeTokens tokens) (closeTokens others))
      (askAll (closeTokens tokens) requests 0)
      (askAll (closeTokens others) requests 0) := by
  let twins : Twins := ⟨closeTokens tokens, closeTokens others, closeTokens_kinds_eq h,
    closed_closeTokens tokens⟩
  obtain ⟨token, rest, hcons⟩ := (closed_closeTokens tokens).exists_cons
  have hlength : 0 < twins.tokens.length := by
    change 0 < (closeTokens tokens).length
    rw [hcons]
    exact Nat.succ_pos _
  exact twins.askAll requests hlength

/-- A name that is answered, and a mark behind it that no declaration starts with. -/
theorem askAll_sameReply_moved : ∃ tokens others : List Token,
    tokens.map Token.start ≠ others.map Token.start ∧
    tokens.map Token.kind = others.map Token.kind ∧
    (askAll (closeTokens tokens) [.expr, .program, .expr] 0).map Reply.stop = [1, 1, 1] ∧
    List.Forall₂ (SameReply (closeTokens tokens) (closeTokens others))
      (askAll (closeTokens tokens) [.expr, .program, .expr] 0)
      (askAll (closeTokens others) [.expr, .program, .expr] 0) := by
  let tokens : List Token := [⟨.ident "a", "a", ⟨1, 1⟩⟩, ⟨.punct .semicolon, ";", ⟨1, 2⟩⟩]
  let others : List Token :=
    [⟨.ident "a", "a", ⟨4, 7⟩⟩, ⟨.punct .semicolon, " ; ", ⟨9, 3⟩⟩]
  have hkinds : tokens.map Token.kind = others.map Token.kind := rfl
  refine ⟨tokens, others, by decide, hkinds, ?_, askAll_sameReply hkinds _⟩
  cbv

end MiniLang

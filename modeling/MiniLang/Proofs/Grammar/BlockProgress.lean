/-
Progress of declarations and statements: each of them takes a token at least, so that
their repetitions and the blocks inside each other come to an end.
-/
import MiniLang.Proofs.Grammar.Progress

namespace MiniLang

variable {α β : Type}

theorem Parser.consumes_bind_left {p : Parser α} {f : α → Parser β}
    (hp : Parser.Consumes (fun _ => True) p)
    (hf : ∀ answer, Parser.TakesFront (f answer)) :
    Parser.Consumes (fun _ => True) (p >>= f) := by
  intro tokens answer rest h _
  obtain ⟨first, middle, hfirst, hrest⟩ := Parser.bind_eq_ok_iff.mp h
  have hmiddle := hp tokens first middle hfirst trivial
  have hle := Parser.length_le_of_takesFront (hf first) hrest
  omega

theorem Parser.consumes_bind_right {p : Parser α} {f : α → Parser β}
    (hp : Parser.TakesFront p)
    (hf : ∀ answer, Parser.Consumes (fun _ => True) (f answer)) :
    Parser.Consumes (fun _ => True) (p >>= f) := by
  intro tokens answer rest h _
  obtain ⟨first, middle, hfirst, hrest⟩ := Parser.bind_eq_ok_iff.mp h
  have hle := Parser.length_le_of_takesFront hp hfirst
  have hmiddle := hf first middle answer rest hrest trivial
  omega

theorem Parser.consumes_some {p : Parser α}
    (hp : Parser.Consumes (fun _ => True) p) :
    Parser.Consumes (·.isSome) (do return some (← p)) := by
  intro tokens answer rest h _
  obtain ⟨first, middle, hfirst, hrest⟩ := Parser.bind_eq_ok_iff.mp h
  obtain ⟨_, rfl⟩ := Parser.pure_eq_ok_iff.mp hrest
  exact hp tokens first middle hfirst trivial

theorem Parser.consumes_none :
    Parser.Consumes (·.isSome) (pure none : Parser (Option α)) := by
  intro tokens answer rest h hsome
  obtain ⟨rfl, _⟩ := Parser.pure_eq_ok_iff.mp h
  exact absurd hsome (by simp)

theorem Parser.consumes_unexpected {counts : α → Prop} (wanted : Wanted) :
    Parser.Consumes counts (Parser.unexpected wanted) :=
  fun _ _ _ h _ => absurd h Parser.unexpected_ne_ok

theorem Parser.takesFront_some {p : Parser α} (hp : Parser.TakesFront p) :
    Parser.TakesFront (do return some (← p)) :=
  Parser.takesFront_bind hp fun _ => Parser.takesFront_pure _

theorem Parser.takesFront_type : Parser.TakesFront Parser.type := by
  apply Parser.takesFront_bind Parser.takesFront_peek
  intro token
  have hword : ∀ type : TypeNode, Parser.TakesFront (do
      Parser.advance
      return type) := fun type =>
    Parser.takesFront_bind Parser.takesFront_advance fun _ =>
      Parser.takesFront_pure _
  split
  · exact hword _
  · exact hword _
  · exact hword _
  · refine Parser.takesFront_bind Parser.takesFront_advance fun _ => ?_
    exact Parser.takesFront_bind Parser.takesFront_ident fun _ =>
      Parser.takesFront_pure _
  · exact Parser.takesFront_unexpected _

theorem Parser.takesFront_varDecl : Parser.TakesFront Parser.varDecl := by
  refine Parser.takesFront_bind Parser.takesFront_type fun type => ?_
  refine Parser.takesFront_bind Parser.takesFront_ident fun id => ?_
  exact Parser.takesFront_bind (Parser.takesFront_expect _ _) fun _ =>
    Parser.takesFront_pure _

theorem Parser.consumes_varDecl :
    Parser.Consumes (fun _ => True) Parser.varDecl := by
  apply Parser.consumes_bind_right Parser.takesFront_type
  intro type
  apply Parser.consumes_bind_left Parser.consumes_ident
  intro id
  exact Parser.takesFront_bind (Parser.takesFront_expect _ _) fun _ =>
    Parser.takesFront_pure _

theorem Parser.takesFront_formal : Parser.TakesFront Parser.formal := by
  refine Parser.takesFront_bind Parser.takesFront_type fun type => ?_
  exact Parser.takesFront_bind Parser.takesFront_ident fun _ =>
    Parser.takesFront_pure _

theorem Parser.takesFront_field? : Parser.TakesFront Parser.field? := by
  refine Parser.takesFront_bind Parser.takesFront_peek fun token => ?_
  dsimp only
  split
  · exact Parser.takesFront_pure none
  · split
    · exact Parser.takesFront_some Parser.takesFront_varDecl
    · exact Parser.takesFront_unexpected _

theorem Parser.consumes_field? :
    Parser.Consumes (·.isSome) Parser.field? := by
  intro tokens
  rw [Parser.field?, Parser.peek_bind]
  by_cases hbrace : (nextToken tokens).kind = .punct .rightBrace
  · rw [if_pos hbrace]
    exact Parser.consumes_none tokens
  · rw [if_neg hbrace]
    by_cases htype : startsType (nextToken tokens).kind = true
    · rw [if_pos htype]
      exact Parser.consumes_some Parser.consumes_varDecl tokens
    · rw [if_neg htype]
      exact Parser.consumes_unexpected _ tokens

theorem Parser.takesFront_blockVariable? :
    Parser.TakesFront Parser.blockVariable? := by
  refine Parser.takesFront_bind Parser.takesFront_peek fun token => ?_
  split
  · exact Parser.takesFront_some Parser.takesFront_varDecl
  · exact Parser.takesFront_pure none

theorem Parser.consumes_blockVariable? :
    Parser.Consumes (·.isSome) Parser.blockVariable? := by
  intro tokens
  rw [Parser.blockVariable?, Parser.peek_bind]
  by_cases htype : startsType (nextToken tokens).kind = true
  · rw [if_pos htype]
    exact Parser.consumes_some Parser.consumes_varDecl tokens
  · rw [if_neg htype]
    exact Parser.consumes_none tokens

theorem Parser.takesFront_condition : Parser.TakesFront Parser.condition := by
  refine Parser.takesFront_bind (Parser.takesFront_expect _ _) fun _ => ?_
  refine Parser.takesFront_bind Parser.takesFront_expr fun cond => ?_
  exact Parser.takesFront_bind (Parser.takesFront_expect _ _) fun _ =>
    Parser.takesFront_pure _

theorem Parser.consumes_condition :
    Parser.Consumes (fun _ => True) Parser.condition := by
  refine Parser.consumes_bind_left (Parser.consumes_expect _ _) fun _ => ?_
  refine Parser.takesFront_bind Parser.takesFront_expr fun cond => ?_
  exact Parser.takesFront_bind (Parser.takesFront_expect _ _) fun _ =>
    Parser.takesFront_pure _

theorem Parser.takesFront_storeStep (start : Span) (expr : Expr) :
    Parser.TakesFront (Parser.storeStep start expr) := by
  unfold Parser.storeStep
  split
  · exact Parser.takesFront_pure _
  · exact Parser.takesFront_pure _
  · split
    · refine Parser.takesFront_bind (Parser.takesFront_accept _) fun plus => ?_
      cases plus with
      | true => exact Parser.takesFront_pure _
      | false =>
          refine Parser.takesFront_bind (Parser.takesFront_accept _) fun minus => ?_
          cases minus with
          | true => exact Parser.takesFront_pure _
          | false => exact Parser.takesFront_unexpected _
    · exact Parser.takesFront_throw _

theorem Parser.takesFront_exprStmt : Parser.TakesFront Parser.exprStmt := by
  refine Parser.takesFront_bind Parser.takesFront_peek fun token => ?_
  refine Parser.takesFront_bind Parser.takesFront_expr fun expr => ?_
  refine Parser.takesFront_bind (Parser.takesFront_storeStep _ _) fun stmt => ?_
  exact Parser.takesFront_bind (Parser.takesFront_expect _ _) fun _ =>
    Parser.takesFront_pure _

theorem Parser.consumes_exprStmt :
    Parser.Consumes (fun _ => True) Parser.exprStmt := by
  refine Parser.consumes_bind_right Parser.takesFront_peek fun token => ?_
  refine Parser.consumes_bind_right Parser.takesFront_expr fun expr => ?_
  refine Parser.consumes_bind_right (Parser.takesFront_storeStep _ _) fun stmt => ?_
  exact Parser.consumes_bind_left (Parser.consumes_expect _ _) fun _ =>
    Parser.takesFront_pure _

theorem Parser.takesFront_returnValue? :
    Parser.TakesFront Parser.returnValue? := by
  refine Parser.takesFront_bind (Parser.takesFront_sees _) fun seen => ?_
  split
  · exact Parser.takesFront_pure none
  · exact Parser.takesFront_some Parser.takesFront_expr

/-- The branch of `if` behind its condition and its first block. -/
theorem Parser.alike_elseBranch {n : Nat} {block block' : Parser Block}
    (h : Parser.Alike n block block') (cond : Expr) (thenBody : Block) :
    Parser.Alike n
      (do
        if (← Parser.peek).kind = .keyword .else_ then
          Parser.advance
          return Stmt.ifElse cond thenBody (← block)
        else return Stmt.ifThen cond thenBody)
      (do
        if (← Parser.peek).kind = .keyword .else_ then
          Parser.advance
          return Stmt.ifElse cond thenBody (← block')
        else return Stmt.ifThen cond thenBody) := by
  refine Parser.Alike.bind (.refl Parser.takesFront_peek n) fun token => ?_
  split
  · refine Parser.Alike.bind (.refl Parser.takesFront_advance n) fun _ => ?_
    exact h.bind fun elseBody => .refl (Parser.takesFront_pure _) n
  · exact .refl (Parser.takesFront_pure _) n

/-- A statement needs its blocks behind a condition only. -/
theorem Parser.alike_stmt {n : Nat} {block block' : Parser Block}
    (h : Parser.Alike n block block') :
    Parser.Alike (n + 1) (Parser.stmt block) (Parser.stmt block') := by
  refine Parser.Alike.bind (.refl Parser.takesFront_peek (n + 1)) fun token => ?_
  have hend : ∀ (context : String) (stmt : Stmt), Parser.TakesFront (do
      Parser.expect .semicolon context
      return stmt) := fun context stmt =>
    Parser.takesFront_bind (Parser.takesFront_expect _ _) fun _ =>
      Parser.takesFront_pure _
  split
  case h_1 =>
      refine .refl ?_ (n + 1)
      refine Parser.takesFront_bind Parser.takesFront_advance fun _ => ?_
      refine Parser.takesFront_bind (Parser.takesFront_expect _ _) fun _ => ?_
      exact Parser.takesFront_bind Parser.takesFront_loc fun loc => hend _ _
  case h_2 =>
      refine .refl ?_ (n + 1)
      refine Parser.takesFront_bind Parser.takesFront_advance fun _ => ?_
      refine Parser.takesFront_bind (Parser.takesFront_expect _ _) fun _ => ?_
      exact Parser.takesFront_bind Parser.takesFront_expr fun expr => hend _ _
  case h_3 =>
      refine Parser.Alike.bind (.refl Parser.takesFront_advance (n + 1)) fun _ => ?_
      apply Parser.Alike.bind_of_consumes Parser.takesFront_condition
        Parser.consumes_condition
      intro cond
      exact h.bind fun thenBody => Parser.alike_elseBranch h cond thenBody
  case h_4 =>
      refine Parser.Alike.bind (.refl Parser.takesFront_advance (n + 1)) fun _ => ?_
      apply Parser.Alike.bind_of_consumes Parser.takesFront_condition
        Parser.consumes_condition
      intro cond
      exact h.bind fun body => .refl (Parser.takesFront_pure _) n
  case h_5 =>
      refine .refl ?_ (n + 1)
      refine Parser.takesFront_bind Parser.takesFront_advance fun _ => ?_
      exact Parser.takesFront_bind Parser.takesFront_returnValue? fun value => hend _ _
  case h_6 => exact .refl Parser.takesFront_exprStmt (n + 1)

theorem Parser.consumes_stmt {block : Parser Block}
    (h : Parser.TakesFront block) :
    Parser.Consumes (fun _ => True) (Parser.stmt block) := by
  refine Parser.consumes_bind_right Parser.takesFront_peek fun token => ?_
  have hend : ∀ (context : String) (stmt : Stmt),
      Parser.Consumes (fun _ => True) (do
        Parser.expect .semicolon context
        return stmt) := fun context stmt =>
    Parser.consumes_bind_left (Parser.consumes_expect _ _) fun _ =>
      Parser.takesFront_pure _
  split
  case h_1 =>
      refine Parser.consumes_bind_right Parser.takesFront_advance fun _ => ?_
      refine Parser.consumes_bind_right (Parser.takesFront_expect _ _) fun _ => ?_
      exact Parser.consumes_bind_right Parser.takesFront_loc fun loc => hend _ _
  case h_2 =>
      refine Parser.consumes_bind_right Parser.takesFront_advance fun _ => ?_
      refine Parser.consumes_bind_right (Parser.takesFront_expect _ _) fun _ => ?_
      exact Parser.consumes_bind_right Parser.takesFront_expr fun expr => hend _ _
  case h_3 =>
      refine Parser.consumes_bind_right Parser.takesFront_advance fun _ => ?_
      refine Parser.consumes_bind_left Parser.consumes_condition fun cond => ?_
      refine Parser.takesFront_bind h fun thenBody => ?_
      exact (Parser.alike_elseBranch (.refl h 0) cond thenBody).left
  case h_4 =>
      refine Parser.consumes_bind_right Parser.takesFront_advance fun _ => ?_
      refine Parser.consumes_bind_left Parser.consumes_condition fun cond => ?_
      exact Parser.takesFront_bind h fun body => Parser.takesFront_pure _
  case h_5 =>
      refine Parser.consumes_bind_right Parser.takesFront_advance fun _ => ?_
      exact Parser.consumes_bind_right Parser.takesFront_returnValue? fun value =>
        hend _ _
  case h_6 => exact Parser.consumes_exprStmt

theorem Parser.alike_blockStmt? {n : Nat} {block block' : Parser Block}
    (h : Parser.Alike n block block') :
    Parser.Alike (n + 1) (Parser.blockStmt? block) (Parser.blockStmt? block') := by
  refine Parser.Alike.bind (.refl Parser.takesFront_peek (n + 1)) fun token => ?_
  dsimp only
  split
  · exact .refl (Parser.takesFront_pure none) (n + 1)
  · split
    · exact .refl (Parser.takesFront_unexpected _) (n + 1)
    · exact (Parser.alike_stmt h).bind fun stmt =>
        .refl (Parser.takesFront_pure _) (n + 1)

theorem Parser.takesFront_blockStmt? {block : Parser Block} (h : Parser.TakesFront block) :
    Parser.TakesFront (Parser.blockStmt? block) :=
  (Parser.alike_blockStmt? (.refl h 0)).left

theorem Parser.consumes_blockStmt? {block : Parser Block}
    (h : Parser.TakesFront block) :
    Parser.Consumes (·.isSome) (Parser.blockStmt? block) := by
  intro tokens
  rw [Parser.blockStmt?, Parser.peek_bind]
  dsimp only
  by_cases hbrace : (nextToken tokens).kind = .punct .rightBrace
  · rw [if_pos hbrace]
    exact Parser.consumes_none tokens
  · rw [if_neg hbrace]
    by_cases heof : (nextToken tokens).kind = .eof
    · rw [if_pos heof]
      exact Parser.consumes_unexpected _ tokens
    · rw [if_neg heof]
      exact Parser.consumes_some (Parser.consumes_stmt h) tokens

theorem Parser.alike_blockBody {n : Nat} {block block' : Parser Block}
    (h : Parser.Alike n block block') :
    Parser.Alike (n + 1) (Parser.blockBody block) (Parser.blockBody block') := by
  apply Parser.Alike.bind_of_consumes (Parser.takesFront_expect _ _)
    (Parser.consumes_expect _ _)
  intro _
  have hvariables : Parser.TakesFront (Parser.collect Parser.blockVariable?) :=
    Parser.takesFront_collect Parser.takesFront_blockVariable?
      Parser.consumes_blockVariable?
  refine Parser.Alike.bind (.refl hvariables n) fun decls => ?_
  have hstmts := Parser.alike_collect
    ((Parser.alike_blockStmt? h).mono (Nat.le_succ n))
    (Parser.consumes_blockStmt? h.left) (Parser.consumes_blockStmt? h.right)
  refine hstmts.bind fun stmts => .refl ?_ n
  exact Parser.takesFront_bind (Parser.takesFront_expect _ _) fun _ =>
    Parser.takesFront_pure _

theorem Parser.progressive_blockBody : Parser.Progressive Parser.blockBody :=
  Parser.progressive_of_alike fun _ _ _ => Parser.alike_blockBody

/-- A block is what its grammar says in terms of itself. -/
theorem Parser.block_eq : Parser.block = Parser.blockBody Parser.block :=
  Parser.fix_eq Parser.progressive_blockBody

theorem Parser.takesFront_block : Parser.TakesFront Parser.block :=
  Parser.takesFront_fix Parser.progressive_blockBody

theorem Parser.takesFront_fields (name : String) :
    Parser.TakesFront (Parser.fields name) := by
  refine Parser.takesFront_bind ?_ fun fields => ?_
  · exact Parser.takesFront_collect Parser.takesFront_field?
      Parser.consumes_field?
  · split
    · exact Parser.takesFront_failHere _
    · exact Parser.takesFront_pure _

theorem Parser.takesFront_functionRest (result : TypeNode) (id : Ident) :
    Parser.TakesFront (Parser.functionRest result id) := by
  refine Parser.takesFront_bind ?_ fun formals => ?_
  · exact (Parser.alike_parenthesized (.refl Parser.takesFront_formal 0)).left
  · exact Parser.takesFront_bind Parser.takesFront_block fun body =>
      Parser.takesFront_pure _

/-- A struct declaration without its reserved word. -/
theorem Parser.takesFront_structDecl : Parser.TakesFront Parser.structDecl := by
  refine Parser.takesFront_bind Parser.takesFront_advance fun _ => ?_
  refine Parser.takesFront_bind Parser.takesFront_ident fun id => ?_
  refine Parser.takesFront_bind (Parser.takesFront_expect _ _) fun _ => ?_
  refine Parser.takesFront_bind (Parser.takesFront_fields _) fun fields => ?_
  refine Parser.takesFront_bind (Parser.takesFront_expect _ _) fun _ => ?_
  exact Parser.takesFront_bind (Parser.takesFront_expect _ _) fun _ =>
    Parser.takesFront_pure _

theorem Parser.consumes_structDecl :
    Parser.Consumes (fun _ => True) Parser.structDecl := by
  refine Parser.consumes_bind_right Parser.takesFront_advance fun _ => ?_
  refine Parser.consumes_bind_left Parser.consumes_ident fun id => ?_
  refine Parser.takesFront_bind (Parser.takesFront_expect _ _) fun _ => ?_
  refine Parser.takesFront_bind (Parser.takesFront_fields _) fun fields => ?_
  refine Parser.takesFront_bind (Parser.takesFront_expect _ _) fun _ => ?_
  exact Parser.takesFront_bind (Parser.takesFront_expect _ _) fun _ =>
    Parser.takesFront_pure _

theorem Parser.takesFront_atStructDecl :
    Parser.TakesFront Parser.atStructDecl := by
  refine Parser.takesFront_bind (Parser.takesFront_peekAt 1) fun second => ?_
  split
  · exact Parser.takesFront_bind (Parser.takesFront_peekAt 2) fun third =>
      Parser.takesFront_pure _
  · exact Parser.takesFront_pure _

theorem Parser.takesFront_decl : Parser.TakesFront Parser.decl := by
  refine Parser.takesFront_bind Parser.takesFront_peek fun token => ?_
  split
  · refine Parser.takesFront_bind Parser.takesFront_atStructDecl fun isStruct => ?_
    split
    · exact Parser.takesFront_structDecl
    · exact Parser.takesFront_varDecl
  · refine Parser.takesFront_bind Parser.takesFront_type fun type => ?_
    refine Parser.takesFront_bind Parser.takesFront_ident fun id => ?_
    refine Parser.takesFront_bind (Parser.takesFront_sees _) fun seen => ?_
    split
    · exact Parser.takesFront_functionRest type id
    · exact Parser.takesFront_bind (Parser.takesFront_expect _ _) fun _ =>
        Parser.takesFront_pure _

theorem Parser.consumes_decl :
    Parser.Consumes (fun _ => True) Parser.decl := by
  refine Parser.consumes_bind_right Parser.takesFront_peek fun token => ?_
  split
  · refine Parser.consumes_bind_right Parser.takesFront_atStructDecl
      fun isStruct => ?_
    split
    · exact Parser.consumes_structDecl
    · exact Parser.consumes_varDecl
  · refine Parser.consumes_bind_right Parser.takesFront_type fun type => ?_
    refine Parser.consumes_bind_left Parser.consumes_ident fun id => ?_
    refine Parser.takesFront_bind (Parser.takesFront_sees _) fun seen => ?_
    split
    · exact Parser.takesFront_functionRest type id
    · exact Parser.takesFront_bind (Parser.takesFront_expect _ _) fun _ =>
        Parser.takesFront_pure _

theorem Parser.takesFront_decl? : Parser.TakesFront Parser.decl? := by
  refine Parser.takesFront_bind Parser.takesFront_peek fun token => ?_
  split
  · exact Parser.takesFront_pure none
  · exact Parser.takesFront_some Parser.takesFront_decl

theorem Parser.consumes_decl? : Parser.Consumes (·.isSome) Parser.decl? := by
  intro tokens
  rw [Parser.decl?, Parser.peek_bind]
  by_cases heof : (nextToken tokens).isEof = true
  · rw [if_pos heof]
    exact Parser.consumes_none tokens
  · rw [if_neg heof]
    exact Parser.consumes_some Parser.consumes_decl tokens

theorem Parser.takesFront_program : Parser.TakesFront Parser.program :=
  Parser.takesFront_bind
    (Parser.takesFront_collect Parser.takesFront_decl? Parser.consumes_decl?)
    fun _ => Parser.takesFront_pure _

end MiniLang

/-
Completeness of the grammar of statements, declarations and programs.
-/
import MiniLang.Proofs.Grammar.ExprCompleteness

namespace MiniLang

variable {α : Type}

theorem DerivesType.head {part : Derivation} {type : TypeNode}
    (h : DerivesType part type) :
    ∃ token rest, part.tokens = token :: rest ∧ startsType token.kind = true := by
  cases h with
  | @int token htoken | @bool token htoken | @void token htoken =>
      exact ⟨token, [], by simp, by rw [htoken]; rfl⟩
  | @struct token word name htoken hword =>
      exact ⟨token, [word], by simp, by rw [htoken]; rfl⟩

theorem DerivesVarDecl.head {part : Derivation} {decl : Decl}
    (h : DerivesVarDecl part decl) :
    ∃ token rest, part.tokens = token :: rest ∧ startsType token.kind = true := by
  cases h with
  | var htype hword hclosing =>
      obtain ⟨token, rest, htokens, hstart⟩ := htype.head
      exact ⟨token, _, by simp [htokens]; rfl, hstart⟩

theorem DerivesFormal.head {part : Derivation} {formal : Formal}
    (h : DerivesFormal part formal) :
    ∃ token rest, part.tokens = token :: rest ∧ startsType token.kind = true := by
  cases h with
  | formal htype hword =>
      obtain ⟨token, rest, htokens, hstart⟩ := htype.head
      exact ⟨token, _, by simp [htokens]; rfl, hstart⟩

theorem DerivesFormal.not_rightParen {part : Derivation} {formal : Formal}
    (h : DerivesFormal part formal) :
    ∃ token rest, part.tokens = token :: rest ∧
      token.kind ≠ .punct .rightParen := by
  obtain ⟨token, rest, htokens, hstart⟩ := h.head
  exact ⟨token, rest, htokens, ne_of_starts hstart rfl⟩

def startsStmt : TokenKind → Bool
  | .keyword .cin => true
  | .keyword .cout => true
  | .keyword .if_ => true
  | .keyword .while_ => true
  | .keyword .return_ => true
  | kind => startsExpr kind

theorem startsStmt_of_startsExpr {kind : TokenKind} (h : startsExpr kind = true) :
    startsStmt kind = true := by
  cases kind with
  | keyword word => cases word <;> first | rfl | exact h
  | _ => exact h

/-- What starts a statement ends no block, and starts neither a type nor the other
half of a statement. -/
theorem not_of_startsStmt {kind : TokenKind} (h : startsStmt kind = true) :
    kind ≠ .punct .rightBrace ∧ kind ≠ .eof ∧ kind ≠ .keyword .else_ ∧
      startsType kind = false := by
  refine ⟨?_, ?_, ?_, ?_⟩
  · rintro rfl
    exact absurd h (by decide)
  · rintro rfl
    exact absurd h (by decide)
  · rintro rfl
    exact absurd h (by decide)
  · cases kind with
    | keyword word => cases word <;> first | rfl | exact absurd h (by decide)
    | _ => rfl

theorem DerivesStmt.head {part : Derivation} {stmt : Stmt}
    (h : DerivesStmt part stmt) :
    ∃ token rest, part.tokens = token :: rest ∧ startsStmt token.kind = true := by
  cases h with
  | @read word _ _ _ _ hword | @write word _ _ _ _ hword
    | @ifThen word _ _ _ _ _ hword | @ifElse word _ _ _ _ _ _ _ hword
    | @while_ word _ _ _ _ _ hword | @retNone word _ hword
    | @retSome word _ _ _ hword =>
      exact ⟨word, _, by simp; rfl, by rw [hword]; rfl⟩
  | assign hexpr | call hexpr | inc hexpr | dec hexpr =>
      obtain ⟨token, rest, htokens, hstart⟩ := hexpr.head
      exact ⟨token, _, by simp [htokens]; rfl, startsStmt_of_startsExpr hstart⟩

/-- An expression that something behind it ends as a whole. -/
theorem Parser.expr_complete {part : Derivation} {expr : Expr}
    (h : DerivesExpr .assignment part expr) {token : Token} {kind : TokenKind}
    (htoken : token.kind = kind)
    (hkind : ∀ closer : Level, closer.takes kind = false) (rest : List Token) :
    Parser.expr (part.tokens ++ token :: rest) = .ok expr (token :: rest) :=
  h.reads _ (Level.ends_of_kind .assignment htoken hkind rest)

theorem Parser.condition_complete {opening closing : Token} {part : Derivation}
    {cond : Expr} (hopening : opening.kind = .punct .leftParen)
    (hcond : DerivesExpr .assignment part cond)
    (hclosing : closing.kind = .punct .rightParen) (rest : List Token) :
    Parser.condition (opening :: (part.tokens ++ closing :: rest)) =
      .ok cond rest := by
  have hfirst : Parser.expect .leftParen "before condition"
      (opening :: (part.tokens ++ closing :: rest)) =
        .ok () (part.tokens ++ closing :: rest) :=
    Parser.expect_eq_ok_iff.mpr ⟨opening, rfl, hopening⟩
  have hend : Parser.expect .rightParen "after condition" (closing :: rest) =
      .ok () rest :=
    Parser.expect_eq_ok_iff.mpr ⟨closing, rfl, hclosing⟩
  rw [Parser.condition, Parser.bind_of_ok hfirst, Parser.bind_of_ok
    (Parser.expr_complete hcond hclosing (by intro closer; cases closer <;> rfl) rest)]
  exact Parser.bind_of_ok hend

/-- A statement that begins with an expression. -/
theorem Parser.stmt_of_startsExpr {block : Parser Block} {tokens : List Token}
    (h : startsExpr (nextToken tokens).kind = true) :
    Parser.stmt block tokens = Parser.exprStmt tokens := by
  rw [Parser.stmt, Parser.peek_bind]
  cases hkind : (nextToken tokens).kind with
  | keyword word =>
      rw [hkind] at h
      cases word <;> first | rfl | exact absurd h (by decide)
  | _ => rfl

/-- An expression statement, where `mid` stands between its expression and its
semicolon and makes the expression a statement. -/
theorem Parser.exprStmt_complete (mid : List Token) {part : Derivation}
    {expr : Expr} {stmt : Stmt} {closing : Token} {rest : List Token}
    (hexpr : DerivesExpr .assignment part expr)
    (hends : Level.assignment.Ends (mid ++ closing :: rest))
    (hstep : ∀ start, Parser.storeStep start expr (mid ++ closing :: rest) =
      .ok stmt (closing :: rest))
    (hclosing : closing.kind = .punct .semicolon) {block : Parser Block} :
    Parser.stmt block (part.tokens ++ (mid ++ closing :: rest)) = .ok stmt rest := by
  obtain ⟨token, others, htokens, hstart⟩ := hexpr.head
  have hnext : startsExpr
      (nextToken (part.tokens ++ (mid ++ closing :: rest))).kind = true := by
    rw [htokens]
    exact hstart
  have hend : Parser.expect .semicolon "after statement" (closing :: rest) =
      .ok () rest :=
    Parser.expect_eq_ok_iff.mpr ⟨closing, rfl, hclosing⟩
  have hread : Parser.expr (part.tokens ++ (mid ++ closing :: rest)) =
      .ok expr (mid ++ closing :: rest) := hexpr.reads _ hends
  rw [Parser.stmt_of_startsExpr hnext, Parser.exprStmt, Parser.peek_bind,
    Parser.bind_of_ok hread, Parser.bind_of_ok (hstep _), Parser.bind_of_ok hend]
  rfl

theorem Parser.storeStep_plusPlus {loc : Expr} (hlocation : loc.isLocation = true)
    {mark : Token} (hmark : mark.kind = .punct .plusPlus) (start : Span)
    (rest : List Token) :
    Parser.storeStep start loc (mark :: rest) = .ok (.inc loc) rest := by
  rw [Parser.storeStep_of_isLocation hlocation, Parser.accept_bind, nextToken_cons,
    if_pos hmark, afterNext_cons (by simp [hmark])]
  rfl

theorem Parser.storeStep_minusMinus {loc : Expr} (hlocation : loc.isLocation = true)
    {mark : Token} (hmark : mark.kind = .punct .minusMinus) (start : Span)
    (rest : List Token) :
    Parser.storeStep start loc (mark :: rest) = .ok (.dec loc) rest := by
  rw [Parser.storeStep_of_isLocation hlocation, Parser.accept_bind, nextToken_cons,
    if_neg (by simp [hmark]), if_neg (by simp), Parser.accept_bind, nextToken_cons,
    if_pos hmark, afterNext_cons (by simp [hmark])]
  rfl

theorem Parser.blockVariable?_complete {part : Derivation} {decl : Decl}
    (h : DerivesVarDecl part decl) (rest : List Token) :
    Parser.blockVariable? (part.tokens ++ rest) = .ok (some decl) rest := by
  obtain ⟨token, others, htokens, hstart⟩ := h.head
  have hread : Parser.varDecl (part.tokens ++ rest) = .ok decl rest :=
    Parser.varDecl_eq_ok_iff.mpr ⟨part, h, rfl⟩
  have hnext : startsType (nextToken (part.tokens ++ rest)).kind = true := by
    rw [htokens]
    exact hstart
  rw [Parser.blockVariable?, Parser.peek_bind, if_pos hnext]
  exact Parser.bind_of_ok hread

theorem Parser.blockStmt?_complete {block : Parser Block} {part : Derivation}
    {stmt : Stmt} (hderives : DerivesStmt part stmt) {rest : List Token}
    (h : Parser.stmt block (part.tokens ++ rest) = .ok stmt rest) :
    Parser.blockStmt? block (part.tokens ++ rest) = .ok (some stmt) rest := by
  obtain ⟨token, others, htokens, hstart⟩ := hderives.head
  obtain ⟨hbrace, heof, _, _⟩ := not_of_startsStmt hstart
  have hnext : (nextToken (part.tokens ++ rest)).kind = token.kind := by
    rw [htokens]
    rfl
  rw [Parser.blockStmt?, Parser.peek_bind, hnext, if_neg hbrace, if_neg heof]
  exact Parser.bind_of_ok h

/-- Where a statement can end: not in front of its other half. -/
def StmtEnds (tokens : List Token) : Prop := (nextToken tokens).kind ≠ .keyword .else_

/-- A block is read as a whole if its statements are. -/
theorem Parser.block_complete {parts : BlockParts} (hframed : parts.Framed)
    (hderives : ∀ stmt ∈ parts.stmts, DerivesStmt stmt.1 stmt.2)
    (hstmts : ∀ stmt ∈ parts.stmts,
      Parser.Reads (Parser.stmt Parser.block) StmtEnds stmt.1 stmt.2) :
    Parser.Reads Parser.block (fun _ => True) parts.derivation parts.block := by
  intro rest _
  have hstmtStart : ∀ stmt ∈ parts.stmts, ∀ behind,
      startsStmt (nextToken (stmt.1.tokens ++ behind)).kind = true := by
    intro stmt hstmt behind
    obtain ⟨token, others, htokens, hstart⟩ := (hderives stmt hstmt).head
    rw [htokens]
    exact hstart
  have hstop : Parser.blockStmt? Parser.block (parts.closing :: rest) =
      .ok none (parts.closing :: rest) := by
    rw [Parser.blockStmt?, Parser.peek_bind, nextToken_cons, if_pos hframed.closing]
    rfl
  have hbody := Parser.collect_complete
    (fun stmt : Derivation × Stmt => stmt.1.tokens) Prod.snd
    (Parser.alike_blockStmt? (.refl Parser.takesFront_block 0)).left
    (Parser.consumes_blockStmt? Parser.takesFront_block)
    StmtEnds (parts.closing :: rest) hstop (by simp [StmtEnds, hframed.closing])
    parts.stmts
    (fun stmt hstmt behind =>
      (not_of_startsStmt (hstmtStart stmt hstmt behind)).2.2.1)
    fun stmt hstmt behind hbehind => Parser.blockStmt?_complete
      (hderives stmt hstmt) (hstmts stmt hstmt behind hbehind)
  let behind := parts.stmts.flatMap (fun stmt => stmt.1.tokens)
    ++ parts.closing :: rest
  have hnoType : startsType (nextToken behind).kind = false := by
    cases hcases : parts.stmts with
    | nil => simp [behind, hcases, hframed.closing, startsType]
    | cons stmt stmts =>
        have hstart := hstmtStart stmt (by simp [hcases])
          (stmts.flatMap (fun stmt => stmt.1.tokens) ++ parts.closing :: rest)
        simpa [behind, hcases] using (not_of_startsStmt hstart).2.2.2
  have hvars := Parser.collect_complete
    (fun decl : Derivation × Decl => decl.1.tokens) Prod.snd
    Parser.takesFront_blockVariable? Parser.consumes_blockVariable?
    (fun _ => True) behind
    (by rw [Parser.blockVariable?, Parser.peek_bind, hnoType]; rfl) trivial
    parts.decls (fun _ _ _ => trivial)
    fun decl hdecl behind _ =>
      Parser.blockVariable?_complete (hframed.decls decl hdecl) behind
  have hopening : Parser.expect .leftBrace "to open a block"
      (parts.opening ::
        (parts.decls.flatMap (fun decl => decl.1.tokens) ++ behind)) =
      .ok () (parts.decls.flatMap (fun decl => decl.1.tokens) ++ behind) :=
    Parser.expect_eq_ok_iff.mpr ⟨parts.opening, rfl, hframed.opening⟩
  have hclosing : Parser.expect .rightBrace "to close a block"
      (parts.closing :: rest) = .ok () rest :=
    Parser.expect_eq_ok_iff.mpr ⟨parts.closing, rfl, hframed.closing⟩
  have htokens : parts.derivation.tokens ++ rest = parts.opening ::
      (parts.decls.flatMap (fun decl => decl.1.tokens) ++ behind) := by
    simp [behind]
  rw [htokens, Parser.block_eq, Parser.blockBody, Parser.bind_of_ok hopening,
    Parser.bind_of_ok hvars, Parser.bind_of_ok hbody, Parser.bind_of_ok hclosing]
  rfl

section Stmt

variable {word : Token} {rest : List Token}

theorem Parser.expect_cons {mark : Punct} {context : String} {token : Token}
    (htoken : token.kind = .punct mark) (rest : List Token) :
    Parser.expect mark context (token :: rest) = .ok () rest :=
  Parser.expect_eq_ok_iff.mpr ⟨token, rfl, htoken⟩

theorem Parser.reads_read {mark closing : Token} {part : Derivation} {loc : Expr}
    (hword : word.kind = .keyword .cin) (hmark : mark.kind = .punct .readOp)
    (hloc : DerivesLoc part loc) (hclosing : closing.kind = .punct .semicolon)
    {block : Parser Block} :
    Parser.stmt block (word :: mark :: (part.tokens ++ closing :: rest)) =
      .ok (.read loc) rest := by
  have hread : Parser.loc (part.tokens ++ closing :: rest) =
      .ok loc (closing :: rest) :=
    Parser.reads_loc hloc _ (by simp [hclosing])
  rw [Parser.stmt, Parser.peek_bind]
  simp only [nextToken_cons, hword]
  rw [Parser.advance_bind, afterNext_cons (by simp [hword]),
    Parser.bind_of_ok (Parser.expect_cons hmark _), Parser.bind_of_ok hread,
    Parser.bind_of_ok (Parser.expect_cons hclosing _)]
  rfl

theorem Parser.reads_write {mark closing : Token} {part : Derivation} {expr : Expr}
    (hword : word.kind = .keyword .cout) (hmark : mark.kind = .punct .writeOp)
    (hexpr : DerivesExpr .assignment part expr)
    (hclosing : closing.kind = .punct .semicolon) {block : Parser Block} :
    Parser.stmt block (word :: mark :: (part.tokens ++ closing :: rest)) =
      .ok (.write expr) rest := by
  have hread := Parser.expr_complete hexpr hclosing
    (by intro closer; cases closer <;> rfl) rest
  rw [Parser.stmt, Parser.peek_bind]
  simp only [nextToken_cons, hword]
  rw [Parser.advance_bind, afterNext_cons (by simp [hword]),
    Parser.bind_of_ok (Parser.expect_cons hmark _), Parser.bind_of_ok hread,
    Parser.bind_of_ok (Parser.expect_cons hclosing _)]
  rfl

/-- A condition and the block behind it, up to where the other half may stand. -/
theorem Parser.reads_ifThen (rest : List Token) {opening closing : Token}
    {part body : Derivation} {cond : Expr} {thenBody : Block}
    (hword : word.kind = .keyword .if_)
    (hopening : opening.kind = .punct .leftParen)
    (hcond : DerivesExpr .assignment part cond)
    (hclosing : closing.kind = .punct .rightParen)
    (hbody : Parser.Reads Parser.block (fun _ => True) body thenBody) :
    Parser.stmt Parser.block
        (word :: opening :: (part.tokens ++ closing :: (body.tokens ++ rest))) =
      (do
        if (← Parser.peek).kind = .keyword .else_ then
          Parser.advance
          return .ifElse cond thenBody (← Parser.block)
        else return .ifThen cond thenBody : Parser Stmt) rest := by
  rw [Parser.stmt, Parser.peek_bind]
  simp only [nextToken_cons, hword]
  rw [Parser.advance_bind, afterNext_cons (by simp [hword]),
    Parser.bind_of_ok (Parser.condition_complete hopening hcond hclosing _),
    Parser.bind_of_ok (hbody rest trivial)]

theorem Parser.reads_while {opening closing : Token} {part body : Derivation}
    {cond : Expr} {block : Block} (hword : word.kind = .keyword .while_)
    (hopening : opening.kind = .punct .leftParen)
    (hcond : DerivesExpr .assignment part cond)
    (hclosing : closing.kind = .punct .rightParen)
    (hbody : Parser.Reads Parser.block (fun _ => True) body block) :
    Parser.stmt Parser.block
        (word :: opening :: (part.tokens ++ closing :: (body.tokens ++ rest))) =
      .ok (.while_ cond block) rest := by
  rw [Parser.stmt, Parser.peek_bind]
  simp only [nextToken_cons, hword]
  rw [Parser.advance_bind, afterNext_cons (by simp [hword]),
    Parser.bind_of_ok (Parser.condition_complete hopening hcond hclosing _)]
  exact Parser.bind_of_ok (hbody rest trivial)

theorem Parser.reads_retNone {closing : Token}
    (hword : word.kind = .keyword .return_)
    (hclosing : closing.kind = .punct .semicolon) {block : Parser Block} :
    Parser.stmt block (word :: closing :: rest) = .ok (.ret none) rest := by
  have hvalue : Parser.returnValue? (closing :: rest) = .ok none (closing :: rest) := by
    rw [Parser.returnValue?, Parser.sees_bind, if_pos (by simp [hclosing])]
    rfl
  rw [Parser.stmt, Parser.peek_bind]
  simp only [nextToken_cons, hword]
  rw [Parser.advance_bind, afterNext_cons (by simp [hword]),
    Parser.bind_of_ok hvalue, Parser.bind_of_ok (Parser.expect_cons hclosing _)]
  rfl

theorem Parser.reads_retSome {closing : Token} {part : Derivation} {value : Expr}
    (hword : word.kind = .keyword .return_)
    (hexpr : DerivesExpr .assignment part value)
    (hclosing : closing.kind = .punct .semicolon) {block : Parser Block} :
    Parser.stmt block (word :: (part.tokens ++ closing :: rest)) =
      .ok (.ret (some value)) rest := by
  have hread := Parser.expr_complete hexpr hclosing
    (by intro closer; cases closer <;> rfl) rest
  obtain ⟨token, others, htokens, hstart⟩ := hexpr.head
  have hsome : Parser.returnValue? (part.tokens ++ closing :: rest) =
      .ok (some value) (closing :: rest) := by
    have hnext : ¬ ((nextToken (part.tokens ++ closing :: rest)).kind ==
        .punct .semicolon) = true := by
      rw [htokens, List.cons_append, nextToken_cons, beq_iff_eq]
      exact ne_of_starts hstart rfl
    rw [Parser.returnValue?, Parser.sees_bind, if_neg hnext]
    exact Parser.bind_of_ok hread
  rw [Parser.stmt, Parser.peek_bind]
  simp only [nextToken_cons, hword]
  rw [Parser.advance_bind, afterNext_cons (by simp [hword]),
    Parser.bind_of_ok hsome, Parser.bind_of_ok (Parser.expect_cons hclosing _)]
  rfl

end Stmt

/-- The parser of statements reads every statement, up to where it can end. -/
theorem DerivesStmt.reads {part : Derivation} {stmt : Stmt}
    (h : DerivesStmt part stmt) :
    Parser.Reads (Parser.stmt Parser.block) StmtEnds part stmt := by
  induction h with
  | read hword hmark hloc hclosing =>
      intro rest _
      simpa using Parser.reads_read hword hmark hloc hclosing
  | write hword hmark hexpr hclosing =>
      intro rest _
      simpa using Parser.reads_write hword hmark hexpr hclosing
  | @ifThen word opening part cond closing body hword hopening hcond hclosing hbody
      hstmts ih =>
      intro rest hrest
      have hread := Parser.reads_ifThen rest hword hopening hcond hclosing
        (Parser.block_complete hbody hstmts ih)
      rw [Parser.peek_bind, if_neg hrest] at hread
      have hanswer : _ = EStateM.Result.ok (Stmt.ifThen cond body.block) rest := hread
      simpa using hanswer
  | @ifElse word opening part cond closing other thenBody elseBody hword hopening
      hcond hclosing hthen hthenStmts hother helse helseStmts ihthen ihelse =>
      intro rest _
      have hread := Parser.reads_ifThen
        (other :: (elseBody.derivation.tokens ++ rest)) hword hopening hcond hclosing
        (Parser.block_complete hthen hthenStmts ihthen)
      have hsecond := Parser.block_complete helse helseStmts ihelse rest trivial
      rw [Parser.peek_bind, nextToken_cons, if_pos hother, Parser.advance_bind,
        afterNext_cons (by simp [hother]), Parser.bind_of_ok hsecond] at hread
      have hanswer : _ = EStateM.Result.ok
        (Stmt.ifElse cond thenBody.block elseBody.block) rest := hread
      simpa using hanswer
  | while_ hword hopening hcond hclosing hbody hstmts ih =>
      intro rest _
      simpa using Parser.reads_while hword hopening hcond hclosing
        (Parser.block_complete hbody hstmts ih)
  | retNone hword hclosing =>
      intro rest _
      simpa using Parser.reads_retNone hword hclosing
  | retSome hword hvalue hclosing =>
      intro rest _
      simpa using Parser.reads_retSome hword hvalue hclosing
  | @assign part lhs rhs closing hexpr hclosing
  | @call part callee args closing hexpr hclosing =>
      intro rest _
      have hends := Level.ends_of_kind .assignment hclosing
        (by intro closer; cases closer <;> rfl) rest
      simpa using Parser.exprStmt_complete [] hexpr hends
        (fun start => rfl) hclosing
  | @inc part loc mark closing hexpr hlocation hmark hclosing =>
      intro rest _
      have hends := Level.ends_of_kind .assignment hmark
        (by intro closer; cases closer <;> rfl) (closing :: rest)
      simpa using Parser.exprStmt_complete [mark] hexpr hends
        (fun start => Parser.storeStep_plusPlus hlocation hmark start _) hclosing
  | @dec part loc mark closing hexpr hlocation hmark hclosing =>
      intro rest _
      have hends := Level.ends_of_kind .assignment hmark
        (by intro closer; cases closer <;> rfl) (closing :: rest)
      simpa using Parser.exprStmt_complete [mark] hexpr hends
        (fun start => Parser.storeStep_minusMinus hlocation hmark start _) hclosing

theorem DerivesBlock.reads {part : Derivation} {block : Block}
    (h : DerivesBlock part block) :
    Parser.Reads Parser.block (fun _ => True) part block := by
  cases h with
  | block hframed hstmts =>
      exact Parser.block_complete hframed hstmts
        fun stmt hstmt => (hstmts stmt hstmt).reads

theorem Parser.fields_complete {name : String} {fields : List (Derivation × Decl)}
    (hnonempty : fields ≠ [])
    (hfields : ∀ field ∈ fields, DerivesVarDecl field.1 field.2)
    {closing : Token} (hclosing : closing.kind = .punct .rightBrace)
    (rest : List Token) :
    Parser.fields name
        (fields.flatMap (fun field => field.1.tokens) ++ closing :: rest) =
      .ok (fields.map Prod.snd) (closing :: rest) := by
  have hfield : ∀ field ∈ fields, ∀ behind, True →
      Parser.field? (field.1.tokens ++ behind) = .ok (some field.2) behind := by
    intro field hfield behind _
    obtain ⟨token, others, htokens, hstart⟩ := (hfields field hfield).head
    have hread : Parser.varDecl (field.1.tokens ++ behind) = .ok field.2 behind :=
      Parser.varDecl_eq_ok_iff.mpr ⟨field.1, hfields field hfield, rfl⟩
    have hnext : (nextToken (field.1.tokens ++ behind)).kind = token.kind := by
      rw [htokens]
      rfl
    have hbrace : token.kind ≠ .punct .rightBrace := ne_of_starts hstart rfl
    rw [Parser.field?, Parser.peek_bind, hnext, if_neg hbrace, if_pos hstart]
    exact Parser.bind_of_ok hread
  have hstop : Parser.field? (closing :: rest) = .ok none (closing :: rest) := by
    rw [Parser.field?, Parser.peek_bind, nextToken_cons, if_pos hclosing]
    rfl
  have hcollect := Parser.collect_complete
    (fun field : Derivation × Decl => field.1.tokens) Prod.snd
    Parser.takesFront_field? Parser.consumes_field? (fun _ => True) (closing :: rest)
    hstop trivial fields (fun _ _ _ => trivial) hfield
  rw [Parser.fields, Parser.bind_of_ok hcollect, if_neg (by simpa using hnonempty)]
  rfl

theorem Parser.structDecl_complete {token word opening closing stop : Token}
    {name : String} {fields : List (Derivation × Decl)}
    (htoken : token.kind = .keyword .struct) (hword : word.kind = .ident name)
    (hopening : opening.kind = .punct .leftBrace) (hnonempty : fields ≠ [])
    (hfields : ∀ field ∈ fields, DerivesVarDecl field.1 field.2)
    (hclosing : closing.kind = .punct .rightBrace)
    (hstop : stop.kind = .punct .semicolon) (rest : List Token) :
    Parser.decl (token :: word :: opening ::
        (fields.flatMap (fun field => field.1.tokens) ++ closing :: stop :: rest)) =
      .ok (.struct (word.ident name) (fields.map Prod.snd)) rest := by
  have hid : ∀ behind, Parser.ident (word :: behind) =
      .ok (word.ident name) behind :=
    fun behind => Parser.ident_eq_ok_iff.mpr ⟨word, name, rfl, hword, rfl⟩
  have hat : ∀ behind, Parser.atStructDecl (token :: word :: opening :: behind) =
      .ok true (token :: word :: opening :: behind) := by
    intro behind
    rw [Parser.atStructDecl_eq]
    simp only [List.drop_succ_cons, List.drop_zero, nextToken_cons, hword, hopening,
      decide_true]
    rfl
  rw [Parser.decl, Parser.peek_bind, nextToken_cons, if_pos htoken,
    Parser.bind_of_ok (hat _), if_pos rfl, Parser.structDecl, Parser.advance_bind,
    afterNext_cons (by simp [htoken]), Parser.bind_of_ok (hid _),
    Parser.bind_of_ok (Parser.expect_cons hopening _),
    Parser.bind_of_ok (Parser.fields_complete hnonempty hfields hclosing _),
    Parser.bind_of_ok (Parser.expect_cons hclosing _),
    Parser.bind_of_ok (Parser.expect_cons hstop _)]
  rfl

/-- A type that is not a struct starts with another word. -/
theorem DerivesType.head_of_plain {part : Derivation} {type : TypeNode}
    (h : DerivesType part type) (hplain : ∀ id, type ≠ .struct id) :
    ∃ token, part.tokens = [token] ∧ token.kind ≠ .keyword .struct := by
  cases h with
  | @int token htoken | @bool token htoken | @void token htoken =>
      exact ⟨token, by simp, by simp [htoken]⟩
  | struct => exact absurd rfl (hplain _)

/-- A declaration that starts with a type other than a struct. -/
theorem Parser.decl_of_plain {part : Derivation} {type : TypeNode} {word : Token}
    {name : String} (htype : DerivesType part type)
    (hplain : ∀ id, type ≠ .struct id) (hword : word.kind = .ident name)
    (rest : List Token) :
    Parser.decl (part.tokens ++ word :: rest) =
      (do
        if ← Parser.sees .leftParen then Parser.functionRest type (word.ident name)
        else
          Parser.endOfVariable
          return .var type (word.ident name) : Parser Decl) rest := by
  obtain ⟨token, htokens, htoken⟩ := htype.head_of_plain hplain
  have hread : Parser.type (part.tokens ++ word :: rest) = .ok type (word :: rest) :=
    Parser.type_eq_ok_iff.mpr ⟨part, htype, rfl⟩
  have hid : Parser.ident (word :: rest) = .ok (word.ident name) rest :=
    Parser.ident_eq_ok_iff.mpr ⟨word, name, rfl, hword, rfl⟩
  have hnext : (nextToken (part.tokens ++ word :: rest)).kind ≠
      .keyword .struct := by
    rw [htokens]
    exact htoken
  rw [Parser.decl, Parser.peek_bind, if_neg hnext, Parser.bind_of_ok hread,
    Parser.bind_of_ok hid]

theorem Parser.decl_complete_var {part : Derivation} {decl : Decl}
    (h : DerivesVarDecl part decl) (rest : List Token) :
    Parser.decl (part.tokens ++ rest) = .ok decl rest := by
  have hread : Parser.varDecl (part.tokens ++ rest) = .ok decl rest :=
    Parser.varDecl_eq_ok_iff.mpr ⟨part, h, rfl⟩
  cases h with
  | @var part type word closing name htype hword hclosing =>
      by_cases hplain : ∀ id, type ≠ .struct id
      · have hdecl := Parser.decl_of_plain htype hplain hword (closing :: rest)
        rw [Parser.sees_bind, if_neg (by simp [hclosing]), Parser.endOfVariable,
          Parser.bind_of_ok (Parser.expect_cons hclosing rest)] at hdecl
        have hanswer : _ = EStateM.Result.ok (Decl.var type (word.ident name)) rest :=
          hdecl
        simpa using hanswer
      · -- The name behind the one of the struct shows that no struct is declared.
        cases htype with
        | int | bool | void => exact absurd (by simp) hplain
        | @struct token structWord structName htoken hstructWord =>
            have hat : ∀ behind, Parser.atStructDecl
                (token :: structWord :: word :: behind) =
                .ok false (token :: structWord :: word :: behind) := by
              intro behind
              rw [Parser.atStructDecl_eq]
              simp only [List.drop_succ_cons, List.drop_zero, nextToken_cons,
                hstructWord, hword]
              rfl
            simp only [Derivation.tokens_node, List.flatMap_cons, List.flatMap_nil,
              Derivation.tokens_leaf, List.append_nil, List.cons_append,
              List.nil_append] at hread ⊢
            rw [Parser.decl, Parser.peek_bind, nextToken_cons, if_pos htoken,
              Parser.bind_of_ok (hat _), if_neg (by simp)]
            exact hread

theorem Parser.decl_complete_func {part body : Derivation} {result : TypeNode}
    {word opening closing : Token} {name : String} {formals : Listing Formal}
    {block : Block} (hresult : DerivesType part result)
    (hplain : ∀ id, result ≠ .struct id) (hword : word.kind = .ident name)
    (hopening : opening.kind = .punct .leftParen) (hseparated : formals.Separated)
    (hformals : ∀ formal ∈ formals.members, DerivesFormal formal.1 formal.2)
    (hclosing : closing.kind = .punct .rightParen) (hbody : DerivesBlock body block)
    (rest : List Token) :
    Parser.decl (part.tokens ++ word :: (opening :: formals.tokens ++
        closing :: (body.tokens ++ rest))) =
      .ok (.func result (word.ident name) formals.values block) rest := by
  have hends : EndsInList (fun _ => True) :=
    ⟨fun _ _ _ => trivial, fun _ _ _ => trivial⟩
  have hreads : ∀ formal ∈ formals.members,
      Parser.Reads Parser.formal (fun _ => True) formal.1 formal.2 :=
    fun formal hformal rest _ =>
      Parser.formal_eq_ok_iff.mpr ⟨formal.1, hformals formal hformal, rfl⟩
  have hlist : Parser.parenthesized "after function name" "after formal parameters"
      Parser.formal (opening :: formals.tokens ++ closing :: (body.tokens ++ rest)) =
        .ok formals.values (body.tokens ++ rest) :=
    Parser.parenthesized_complete hends Parser.takesFront_formal hseparated hreads
      (fun formal hformal => (hformals formal hformal).not_rightParen) hopening
      hclosing _
  rw [Parser.decl_of_plain hresult hplain hword, Parser.sees_bind, List.cons_append,
    nextToken_cons, if_pos (by simp [hopening]), Parser.functionRest,
    ← List.cons_append, Parser.bind_of_ok hlist,
    Parser.bind_of_ok (hbody.reads rest trivial)]
  rfl

/-- The parser of declarations reads every declaration, whatever stands behind it. -/
theorem DerivesDecl.reads {part : Derivation} {decl : Decl}
    (h : DerivesDecl part decl) :
    Parser.Reads Parser.decl (fun _ => True) part decl := by
  intro rest _
  cases h with
  | struct htoken hword hopening hnonempty hfields hclosing hstop =>
      simpa [List.flatMap_map] using Parser.structDecl_complete htoken hword hopening
        hnonempty hfields hclosing hstop rest
  | var hpart => simpa using Parser.decl_complete_var hpart rest
  | func hresult hplain hword hopening hseparated hformals hclosing hbody =>
      simpa [Listing.tokens] using Parser.decl_complete_func hresult hplain hword
        hopening hseparated hformals hclosing hbody rest

theorem DerivesDecl.head {part : Derivation} {decl : Decl}
    (h : DerivesDecl part decl) :
    ∃ token rest, part.tokens = token :: rest ∧ startsType token.kind = true := by
  cases h with
  | @struct token word opening closing stop name fields htoken =>
      exact ⟨token, _, by simp; rfl, by rw [htoken]; rfl⟩
  | var hpart =>
      obtain ⟨token, rest, htokens, hstart⟩ := hpart.head
      exact ⟨token, rest, by simpa using htokens, hstart⟩
  | func hresult =>
      obtain ⟨token, rest, htokens, hstart⟩ := hresult.head
      exact ⟨token, _, by simp [htokens]; rfl, hstart⟩

/-- The parser of programs reads every program, up to the end of the file. -/
theorem DerivesProgram.reads {part : Derivation} {program : Program}
    (h : DerivesProgram part program) :
    Parser.Reads Parser.program (fun rest => (nextToken rest).isEof = true) part
      program := by
  intro rest hrest
  cases h with
  | @program decls hdecls =>
      have hdecl : ∀ decl ∈ decls, ∀ behind, True →
          Parser.decl? (decl.1.tokens ++ behind) = .ok (some decl.2) behind := by
        intro decl hdecl behind _
        obtain ⟨token, others, htokens, hstart⟩ := (hdecls decl hdecl).head
        have hnext : ¬ (nextToken (decl.1.tokens ++ behind)).isEof = true := by
          rw [htokens, List.cons_append, nextToken_cons, Token.isEof, beq_iff_eq]
          exact ne_of_starts hstart rfl
        rw [Parser.decl?, Parser.peek_bind, if_neg hnext]
        exact Parser.bind_of_ok ((hdecls decl hdecl).reads behind trivial)
      have hcollect := Parser.collect_complete
        (fun decl : Derivation × Decl => decl.1.tokens) Prod.snd
        Parser.takesFront_decl? Parser.consumes_decl? (fun _ => True) rest
        (Parser.decl?_eq_none_iff.mpr ⟨hrest, rfl⟩) trivial decls
        (fun _ _ _ => trivial) hdecl
      rw [Derivation.tokens_node, List.flatMap_map, Parser.program,
        Parser.bind_of_ok hcollect]
      rfl

end MiniLang

/-
Soundness of the grammar: whatever a parser answers is the tree of a derivation, and
the tokens that the parser takes are those that the derivation derives.
-/
import MiniLang.Proofs.Grammar.Repetition

namespace MiniLang

variable {α : Type}

theorem Parser.sound_loc : Parser.Sound Parser.loc DerivesLoc := by
  intro tokens answer rest h
  obtain ⟨id, middle, hid, hmore⟩ := Parser.bind_eq_ok_iff.mp h
  obtain ⟨fields, last, hfields, hpure⟩ := Parser.bind_eq_ok_iff.mp hmore
  obtain ⟨rfl, rfl⟩ := Parser.pure_eq_ok_iff.mp hpure
  obtain ⟨word, name, rfl, hword, rfl⟩ := Parser.ident_eq_ok_iff.mp hid
  have hstep : ∀ tokens answer rest,
      Parser.after? (chooseMark .dot) (fun _ => Parser.ident) tokens =
        .ok (some answer) rest →
      ∃ access : FieldAccess,
        (access.dot.kind = .punct .dot ∧ access.word.kind = .ident access.name) ∧
        access.id = answer ∧ tokens = [access.dot, access.word] ++ rest := by
    intro tokens answer rest hstep
    obtain ⟨dot, behind, _, rfl, hdot, hanswer⟩ :=
      (Parser.after?_eq_some_iff (punctual_chooseMark .dot)).mp hstep
    obtain ⟨word, name, rfl, hword, rfl⟩ := Parser.ident_eq_ok_iff.mp hanswer
    exact ⟨⟨dot, word, name⟩, ⟨kind_of_chooseMark hdot, hword⟩, rfl, rfl⟩
  obtain ⟨accesses, haccesses, rfl, rfl⟩ := Parser.collect_sound
    (fun access : FieldAccess => [access.dot, access.word]) FieldAccess.id
    (Parser.takesFront_after? fun _ => Parser.takesFront_ident)
    (Parser.consumes_after? (punctual_chooseMark .dot)
      fun _ => Parser.takesFront_ident)
    (fun access => access.dot.kind = .punct .dot ∧
      access.word.kind = .ident access.name)
    hstep (fun _ _ hnone => (Parser.after?_eq_none_iff.mp hnone).2) hfields
  refine ⟨_, .access hword haccesses, ?_⟩
  simp [FieldAccess.parts, List.flatMap_assoc]

/-- Operands in a row are derived on their level if the operands are derived on the next
one. -/
theorem Parser.sound_chain (level : Level) {choose : TokenKind → Option BinaryOp}
    {operand : Parser Expr} (hlevel : level.operator? = some choose)
    (hoperandFront : Parser.TakesFront operand)
    (hoperand : Parser.Sound operand (DerivesExpr level.operand)) :
    Parser.Sound (Parser.chain choose operand) (DerivesExpr level) := by
  intro tokens answer rest h
  obtain ⟨first, middle, hfirst, hmore⟩ := Parser.bind_eq_ok_iff.mp h
  obtain ⟨others, last, hothers, hpure⟩ := Parser.bind_eq_ok_iff.mp hmore
  obtain ⟨rfl, rfl⟩ := Parser.pure_eq_ok_iff.mp hpure
  obtain ⟨part, hpart, rfl⟩ := hoperand _ _ _ hfirst
  have hpunctual := Level.punctual_of_operator? hlevel
  have hitem := Parser.takesFront_operand hoperandFront
  have hstep : ∀ tokens answer rest,
      Parser.after? choose (fun op => do return (op, ← operand)) tokens =
        .ok (some answer) rest →
      ∃ other : Operand, (choose other.mark.kind = some other.op ∧
          DerivesExpr level.operand other.part other.value) ∧
        (other.op, other.value) = answer ∧
        tokens = other.mark :: other.part.tokens ++ rest := by
    intro tokens answer rest hstep
    obtain ⟨mark, behind, op, rfl, hmark, hanswer⟩ :=
      (Parser.after?_eq_some_iff hpunctual).mp hstep
    obtain ⟨value, middle, hvalue, hpure⟩ := Parser.bind_eq_ok_iff.mp hanswer
    obtain ⟨rfl, rfl⟩ := Parser.pure_eq_ok_iff.mp hpure
    obtain ⟨part, hpart, rfl⟩ := hoperand _ _ _ hvalue
    exact ⟨⟨mark, op, part, value⟩, ⟨hmark, hpart⟩, rfl, rfl⟩
  obtain ⟨operands, hoperands, rfl, rfl⟩ := Parser.collect_sound
    (fun other : Operand => other.mark :: other.part.tokens)
    (fun other => (other.op, other.value))
    (Parser.takesFront_after? hitem) (Parser.consumes_after? hpunctual hitem)
    (fun other => choose other.mark.kind = some other.op ∧
      DerivesExpr level.operand other.part other.value)
    hstep (fun _ _ hnone => (Parser.after?_eq_none_iff.mp hnone).2) hothers
  have hvalue : (operands.map fun other => (other.op, other.value)).foldl
      (fun lhs other => Expr.binary other.1 lhs other.2) first =
        joinOperands first operands := by
    rw [List.foldl_map, joinOperands]
  rw [hvalue]
  refine ⟨_, .chain hlevel hpart (fun other hother => (hoperands other hother).1)
    fun other hother => (hoperands other hother).2, ?_⟩
  simp [Operand.parts, List.flatMap_assoc]

section Expr

variable {expr : Parser Expr} (hfront : Parser.TakesFront expr)
  (hexpr : Parser.Sound expr (DerivesExpr .assignment))

include hfront hexpr

theorem Parser.sound_call {tokens rest : List Token} {answer : Expr}
    (h : Parser.call expr tokens = .ok answer rest) :
    ∃ part, DerivesExpr .term part answer ∧ tokens = part.tokens ++ rest := by
  obtain ⟨id, middle, hid, hmore⟩ := Parser.bind_eq_ok_iff.mp h
  obtain ⟨args, last, hargs, hpure⟩ := Parser.bind_eq_ok_iff.mp hmore
  obtain ⟨rfl, rfl⟩ := Parser.pure_eq_ok_iff.mp hpure
  obtain ⟨word, name, rfl, hword, rfl⟩ := Parser.ident_eq_ok_iff.mp hid
  obtain ⟨left, right, listing, hleft, hseparated, hmembers, hright, rfl, rfl⟩ :=
    Parser.parenthesized_sound hfront hexpr hargs
  refine ⟨_, .call hword hleft hseparated hmembers hright, ?_⟩
  simp [Listing.tokens]

theorem Parser.sound_term :
    Parser.Sound (Parser.term expr) (DerivesExpr .term) := by
  intro tokens answer rest h
  rw [Parser.term, Parser.peek_bind] at h
  cases hkind : (nextToken tokens).kind with
  | int value =>
      obtain ⟨token, others, rfl, htoken⟩ := eq_cons_of_nextToken hkind (by simp)
      simp only [hkind, Parser.advance_bind, Parser.pure_eq_ok_iff] at h
      obtain ⟨rfl, rfl⟩ := h
      rw [afterNext_cons (by simp [htoken])]
      exact ⟨_, .int htoken, by simp⟩
  | str text =>
      obtain ⟨token, others, rfl, htoken⟩ := eq_cons_of_nextToken hkind (by simp)
      simp only [hkind, Parser.advance_bind, Parser.pure_eq_ok_iff] at h
      obtain ⟨rfl, rfl⟩ := h
      rw [afterNext_cons (by simp [htoken])]
      exact ⟨_, .str htoken, by simp⟩
  | keyword word =>
      obtain ⟨token, others, rfl, htoken⟩ := eq_cons_of_nextToken hkind (by simp)
      cases word with
      | true_ =>
          simp only [hkind, Parser.advance_bind, Parser.pure_eq_ok_iff] at h
          obtain ⟨rfl, rfl⟩ := h
          rw [afterNext_cons (by simp [htoken])]
          exact ⟨_, .trueWord htoken, by simp⟩
      | false_ =>
          simp only [hkind, Parser.advance_bind, Parser.pure_eq_ok_iff] at h
          obtain ⟨rfl, rfl⟩ := h
          rw [afterNext_cons (by simp [htoken])]
          exact ⟨_, .falseWord htoken, by simp⟩
      | _ => simp [htoken] at h
  | punct mark =>
      obtain ⟨token, others, rfl, htoken⟩ := eq_cons_of_nextToken hkind (by simp)
      cases mark with
      | leftParen =>
          simp only [hkind, Parser.advance_bind] at h
          rw [afterNext_cons (by simp [htoken])] at h
          obtain ⟨inner, middle, hinner, hmore⟩ := Parser.bind_eq_ok_iff.mp h
          obtain ⟨_, last, hclosing, hpure⟩ := Parser.bind_eq_ok_iff.mp hmore
          obtain ⟨rfl, rfl⟩ := Parser.pure_eq_ok_iff.mp hpure
          obtain ⟨closing, rfl, hclosingKind⟩ :=
            Parser.expect_eq_ok_iff.mp hclosing
          obtain ⟨part, hpart, rfl⟩ := hexpr _ _ _ hinner
          exact ⟨_, .paren htoken hpart hclosingKind, by simp⟩
      | _ => simp [htoken] at h
  | ident name =>
      simp only [hkind] at h
      rw [Parser.peekAt_bind] at h
      by_cases hsecond : (nextToken (tokens.drop 1)).kind = .punct .leftParen
      · rw [if_pos hsecond] at h
        exact Parser.sound_call hfront hexpr h
      · rw [if_neg hsecond] at h
        obtain ⟨part, hpart, rfl⟩ := Parser.sound_loc _ _ _ h
        exact ⟨_, .loc hpart, by simp⟩
  | eof => simp [hkind] at h

theorem Parser.sound_unary :
    Parser.Sound (Parser.unary expr) (DerivesExpr .unary) := by
  intro tokens answer rest h
  obtain ⟨ops, middle, hops, hmore⟩ := Parser.bind_eq_ok_iff.mp h
  obtain ⟨operand, last, hoperand, hpure⟩ := Parser.bind_eq_ok_iff.mp hmore
  obtain ⟨rfl, rfl⟩ := Parser.pure_eq_ok_iff.mp hpure
  obtain ⟨part, hpart, rfl⟩ := Parser.sound_term hfront hexpr _ _ _ hoperand
  have hstep : ∀ tokens answer rest,
      Parser.after? chooseUnary pure tokens = .ok (some answer) rest →
      ∃ mark : Token × UnaryOp, chooseUnary mark.1.kind = some mark.2 ∧
        mark.2 = answer ∧ tokens = [mark.1] ++ rest := by
    intro tokens answer rest hstep
    obtain ⟨mark, behind, op, rfl, hmark, hanswer⟩ :=
      (Parser.after?_eq_some_iff punctual_chooseUnary).mp hstep
    obtain ⟨rfl, rfl⟩ := Parser.pure_eq_ok_iff.mp hanswer
    exact ⟨(mark, op), hmark, rfl, rfl⟩
  obtain ⟨marks, hmarks, rfl, rfl⟩ := Parser.collect_sound
    (fun mark : Token × UnaryOp => [mark.1]) Prod.snd
    (Parser.takesFront_after? fun op => Parser.takesFront_pure op)
    (Parser.consumes_after? punctual_chooseUnary
      fun op => Parser.takesFront_pure op)
    (fun mark => chooseUnary mark.1.kind = some mark.2)
    hstep (fun _ _ hnone => (Parser.after?_eq_none_iff.mp hnone).2) hops
  -- The operator next to the operand is applied first.
  clear h hmore hops hpure
  induction marks with
  | nil => exact ⟨_, .unmarked hpart, by simp⟩
  | cons mark marks ih =>
      obtain ⟨inner, hinner, htokens⟩ :=
        ih fun other hother => hmarks other (by simp [hother])
      refine ⟨_, .marked (hmarks mark (by simp)) hinner, ?_⟩
      simpa using htokens

theorem Parser.sound_additive :
    Parser.Sound (Parser.additive expr) (DerivesExpr .sum) := by
  have hunary := Parser.alike_unary (.refl hfront 0)
  have hproduct := Parser.alike_chain .product rfl hunary
  refine Parser.sound_chain .sum rfl hproduct.left ?_
  refine Parser.sound_chain .product rfl hunary.left ?_
  exact Parser.sound_unary hfront hexpr

theorem Parser.sound_relational :
    Parser.Sound (Parser.relational expr) (DerivesExpr .comparison) := by
  intro tokens answer rest h
  have hsum := Parser.sound_additive hfront hexpr
  obtain ⟨lhs, middle, hlhs, hmore⟩ := Parser.bind_eq_ok_iff.mp h
  obtain ⟨left, hleft, rfl⟩ := hsum _ _ _ hlhs
  obtain ⟨other, last, hother, hanswer⟩ := Parser.bind_eq_ok_iff.mp hmore
  cases other with
  | none =>
      obtain ⟨rfl, rfl⟩ := Parser.pure_eq_ok_iff.mp hanswer
      obtain ⟨_, rfl⟩ := Parser.after?_eq_none_iff.mp hother
      exact ⟨_, .uncompared hleft, by simp⟩
  | some other =>
      obtain ⟨mark, behind, op, rfl, hmark, hitem⟩ :=
        (Parser.after?_eq_some_iff punctual_chooseRelational).mp hother
      obtain ⟨rhs, _, hrhs, hpair⟩ := Parser.bind_eq_ok_iff.mp hitem
      obtain ⟨rfl, rfl⟩ := Parser.pure_eq_ok_iff.mp hpair
      obtain ⟨right, hright, rfl⟩ := hsum _ _ _ hrhs
      dsimp only at hanswer
      rw [Parser.peek_bind] at hanswer
      split at hanswer
      · exact absurd hanswer (by simp)
      · obtain ⟨rfl, rfl⟩ := Parser.pure_eq_ok_iff.mp hanswer
        exact ⟨_, .compared hleft hmark hright, by simp⟩

theorem Parser.sound_disjunction :
    Parser.Sound (Parser.disjunction expr) (DerivesExpr .disjunction) := by
  have hrelational := Parser.alike_relational (.refl hfront 0)
  have hconjunction := Parser.alike_chain .conjunction rfl hrelational
  refine Parser.sound_chain .disjunction rfl hconjunction.left ?_
  refine Parser.sound_chain .conjunction rfl hrelational.left ?_
  exact Parser.sound_relational hfront hexpr

theorem Parser.sound_assignment :
    Parser.Sound (Parser.assignment expr) (DerivesExpr .assignment) := by
  intro tokens answer rest h
  obtain ⟨lhs, middle, hlhs, hmore⟩ := Parser.bind_eq_ok_iff.mp h
  obtain ⟨target, htarget, rfl⟩ := Parser.sound_disjunction hfront hexpr _ _ _ hlhs
  rw [Parser.peek_bind] at hmore
  by_cases hequal : (nextToken middle).kind = .punct .equal
  · rw [if_pos hequal] at hmore
    obtain ⟨mark, others, rfl, hmark⟩ := eq_cons_of_nextToken hequal (by simp)
    rw [Parser.advance_bind, afterNext_cons (by simp [hmark])] at hmore
    by_cases hlocation : lhs.isLocation = true
    · rw [if_pos hlocation] at hmore
      obtain ⟨rhs, _, hrhs, hpure⟩ := Parser.bind_eq_ok_iff.mp hmore
      obtain ⟨rfl, rfl⟩ := Parser.pure_eq_ok_iff.mp hpure
      obtain ⟨value, hvalue, rfl⟩ := hexpr _ _ _ hrhs
      exact ⟨_, .assign htarget hlocation hmark hvalue, by simp⟩
    · rw [if_neg hlocation] at hmore
      exact absurd hmore (by simp)
  · rw [if_neg hequal] at hmore
    obtain ⟨rfl, rfl⟩ := Parser.pure_eq_ok_iff.mp hmore
    exact ⟨_, .plain htarget, by simp⟩

end Expr

theorem Parser.sound_expr : Parser.Sound Parser.expr (DerivesExpr .assignment) :=
  Parser.sound_fix Parser.progressive_assignment fun _ => Parser.sound_assignment

theorem Parser.varDecl_eq_ok_iff {tokens rest : List Token} {decl : Decl} :
    Parser.varDecl tokens = .ok decl rest ↔
      ∃ part, DerivesVarDecl part decl ∧ tokens = part.tokens ++ rest := by
  constructor
  · intro h
    obtain ⟨type, middle, htype, hmore⟩ := Parser.bind_eq_ok_iff.mp h
    obtain ⟨id, last, hid, hend⟩ := Parser.bind_eq_ok_iff.mp hmore
    obtain ⟨_, _, hclosing, hpure⟩ := Parser.bind_eq_ok_iff.mp hend
    obtain ⟨rfl, rfl⟩ := Parser.pure_eq_ok_iff.mp hpure
    obtain ⟨part, hpart, rfl⟩ := Parser.type_eq_ok_iff.mp htype
    obtain ⟨word, name, rfl, hword, rfl⟩ := Parser.ident_eq_ok_iff.mp hid
    obtain ⟨closing, rfl, hkind⟩ := Parser.expect_eq_ok_iff.mp hclosing
    exact ⟨_, .var hpart hword hkind, by simp⟩
  · rintro ⟨part, hpart, rfl⟩
    cases hpart with
    | @var part type word closing name htype hword hclosing =>
        have hfirst : Parser.type (part.tokens ++ word :: closing :: rest) =
            .ok type (word :: closing :: rest) :=
          Parser.type_eq_ok_iff.mpr ⟨part, htype, rfl⟩
        have hid : Parser.ident (word :: closing :: rest) =
            .ok (word.ident name) (closing :: rest) :=
          Parser.ident_eq_ok_iff.mpr ⟨word, name, rfl, hword, rfl⟩
        have hend : Parser.endOfVariable (closing :: rest) = .ok () rest :=
          Parser.expect_eq_ok_iff.mpr ⟨closing, rfl, hclosing⟩
        simp only [Derivation.tokens_node, List.flatMap_cons, List.flatMap_nil,
          Derivation.tokens_leaf, List.append_assoc, List.cons_append,
          List.nil_append, List.append_nil]
        rw [Parser.varDecl, Parser.bind_of_ok hfirst, Parser.bind_of_ok hid]
        exact Parser.bind_of_ok hend

theorem Parser.formal_eq_ok_iff {tokens rest : List Token} {formal : Formal} :
    Parser.formal tokens = .ok formal rest ↔
      ∃ part, DerivesFormal part formal ∧ tokens = part.tokens ++ rest := by
  constructor
  · intro h
    obtain ⟨type, middle, htype, hmore⟩ := Parser.bind_eq_ok_iff.mp h
    obtain ⟨id, last, hid, hpure⟩ := Parser.bind_eq_ok_iff.mp hmore
    obtain ⟨rfl, rfl⟩ := Parser.pure_eq_ok_iff.mp hpure
    obtain ⟨part, hpart, rfl⟩ := Parser.type_eq_ok_iff.mp htype
    obtain ⟨word, name, rfl, hword, rfl⟩ := Parser.ident_eq_ok_iff.mp hid
    exact ⟨_, .formal hpart hword, by simp⟩
  · rintro ⟨part, hpart, rfl⟩
    cases hpart with
    | @formal part type word name htype hword =>
        have hfirst : Parser.type (part.tokens ++ word :: rest) =
            .ok type (word :: rest) :=
          Parser.type_eq_ok_iff.mpr ⟨part, htype, rfl⟩
        have hid : Parser.ident (word :: rest) = .ok (word.ident name) rest :=
          Parser.ident_eq_ok_iff.mpr ⟨word, name, rfl, hword, rfl⟩
        simp only [Derivation.tokens_node, List.flatMap_cons, List.flatMap_nil,
          Derivation.tokens_leaf, List.append_assoc, List.cons_append,
          List.nil_append, List.append_nil]
        rw [Parser.formal, Parser.bind_of_ok hfirst]
        exact Parser.bind_of_ok hid

theorem Parser.condition_sound {tokens rest : List Token} {cond : Expr}
    (h : Parser.condition tokens = .ok cond rest) :
    ∃ (opening closing : Token) (part : Derivation),
      opening.kind = .punct .leftParen ∧ DerivesExpr .assignment part cond ∧
      closing.kind = .punct .rightParen ∧
      tokens = opening :: part.tokens ++ closing :: rest := by
  obtain ⟨_, middle, hopening, hmore⟩ := Parser.bind_eq_ok_iff.mp h
  obtain ⟨opening, rfl, hopeningKind⟩ := Parser.expect_eq_ok_iff.mp hopening
  obtain ⟨expr, last, hexpr, hend⟩ := Parser.bind_eq_ok_iff.mp hmore
  obtain ⟨part, hpart, rfl⟩ := Parser.sound_expr _ _ _ hexpr
  obtain ⟨_, _, hclosing, hpure⟩ := Parser.bind_eq_ok_iff.mp hend
  obtain ⟨rfl, rfl⟩ := Parser.pure_eq_ok_iff.mp hpure
  obtain ⟨closing, rfl, hclosingKind⟩ := Parser.expect_eq_ok_iff.mp hclosing
  exact ⟨opening, closing, part, hopeningKind, hpart, hclosingKind, rfl⟩

theorem Parser.accept_bind {mark : Punct} {f : Bool → Parser α}
    {tokens : List Token} :
    (Parser.accept mark >>= f) tokens =
      if (nextToken tokens).kind = .punct mark then f true (afterNext tokens)
      else f false tokens := by
  by_cases h : (nextToken tokens).kind = .punct mark
  · have haccept : Parser.accept mark tokens = .ok true (afterNext tokens) := by
      rw [Parser.accept, Parser.sees_bind, if_pos (by simp [h])]
      rfl
    rw [if_pos h, Parser.bind_of_ok haccept]
  · have haccept : Parser.accept mark tokens = .ok false tokens := by
      rw [Parser.accept, Parser.sees_bind, if_neg (by simp [h])]
      rfl
    rw [if_neg h, Parser.bind_of_ok haccept]

/-- What a location is followed by to make a statement. -/
theorem Parser.storeStep_of_isLocation {start : Span} {expr : Expr}
    (h : expr.isLocation = true) :
    Parser.storeStep start expr = (do
      if ← Parser.accept .plusPlus then return .inc expr
      else if ← Parser.accept .minusMinus then return .dec expr
      else Parser.unexpected .storeOperator) := by
  cases expr with
  | name id => rfl
  | dot loc field => rfl
  | _ => exact absurd h (by simp [Expr.isLocation])

theorem Parser.sound_exprStmt : Parser.Sound Parser.exprStmt DerivesStmt := by
  intro tokens answer rest h
  rw [Parser.exprStmt, Parser.peek_bind] at h
  obtain ⟨expr, middle, hexpr, hmore⟩ := Parser.bind_eq_ok_iff.mp h
  obtain ⟨part, hpart, rfl⟩ := Parser.sound_expr _ _ _ hexpr
  obtain ⟨stmt, last, hstmt, hend⟩ := Parser.bind_eq_ok_iff.mp hmore
  obtain ⟨_, _, hclosing, hpure⟩ := Parser.bind_eq_ok_iff.mp hend
  obtain ⟨rfl, rfl⟩ := Parser.pure_eq_ok_iff.mp hpure
  obtain ⟨closing, rfl, hclosingKind⟩ := Parser.expect_eq_ok_iff.mp hclosing
  by_cases hlocation : expr.isLocation = true
  · rw [Parser.storeStep_of_isLocation hlocation, Parser.accept_bind] at hstmt
    by_cases hplus : (nextToken middle).kind = .punct .plusPlus
    · obtain ⟨mark, others, rfl, hmark⟩ := eq_cons_of_nextToken hplus (by simp)
      rw [if_pos hplus, if_pos rfl, afterNext_cons (by simp [hmark])] at hstmt
      obtain ⟨rfl, rfl⟩ := Parser.pure_eq_ok_iff.mp hstmt
      exact ⟨_, .inc hpart hlocation hmark hclosingKind, by simp⟩
    · rw [if_neg hplus, if_neg (by simp), Parser.accept_bind] at hstmt
      by_cases hminus : (nextToken middle).kind = .punct .minusMinus
      · obtain ⟨mark, others, rfl, hmark⟩ := eq_cons_of_nextToken hminus (by simp)
        rw [if_pos hminus, if_pos rfl, afterNext_cons (by simp [hmark])] at hstmt
        obtain ⟨rfl, rfl⟩ := Parser.pure_eq_ok_iff.mp hstmt
        exact ⟨_, .dec hpart hlocation hmark hclosingKind, by simp⟩
      · rw [if_neg hminus, if_neg (by simp)] at hstmt
        exact absurd hstmt (by simp)
  · cases expr with
    | assign lhs rhs =>
        obtain ⟨rfl, rfl⟩ := Parser.pure_eq_ok_iff.mp hstmt
        exact ⟨_, .assign hpart hclosingKind, by simp⟩
    | call callee args =>
        obtain ⟨rfl, rfl⟩ := Parser.pure_eq_ok_iff.mp hstmt
        exact ⟨_, .call hpart hclosingKind, by simp⟩
    | name id => exact absurd rfl hlocation
    | dot loc field => exact absurd rfl hlocation
    | _ => exact absurd hstmt (by simp [Parser.storeStep, Expr.isLocation])

/-- Statements are derived if blocks are. -/
theorem Parser.sound_stmt {block : Parser Block}
    (hblock : Parser.Sound block DerivesBlock) :
    Parser.Sound (Parser.stmt block) DerivesStmt := by
  intro tokens answer rest h
  rw [Parser.stmt, Parser.peek_bind] at h
  have hexprStmt := Parser.sound_exprStmt tokens answer rest
  cases hkind : (nextToken tokens).kind with
  | keyword word =>
      obtain ⟨token, others, rfl, htoken⟩ := eq_cons_of_nextToken hkind (by simp)
      have hnext : afterNext (token :: others) = others :=
        afterNext_cons (by simp [htoken]) others
      cases word with
      | cin =>
          simp only [hkind, Parser.advance_bind, hnext] at h
          obtain ⟨_, middle, hmark, hmore⟩ := Parser.bind_eq_ok_iff.mp h
          obtain ⟨mark, rfl, hmarkKind⟩ := Parser.expect_eq_ok_iff.mp hmark
          obtain ⟨loc, last, hloc, hend⟩ := Parser.bind_eq_ok_iff.mp hmore
          obtain ⟨part, hpart, rfl⟩ := Parser.sound_loc _ _ _ hloc
          obtain ⟨_, _, hclosing, hpure⟩ := Parser.bind_eq_ok_iff.mp hend
          obtain ⟨rfl, rfl⟩ := Parser.pure_eq_ok_iff.mp hpure
          obtain ⟨closing, rfl, hclosingKind⟩ := Parser.expect_eq_ok_iff.mp hclosing
          exact ⟨_, .read htoken hmarkKind hpart hclosingKind, by simp⟩
      | cout =>
          simp only [hkind, Parser.advance_bind, hnext] at h
          obtain ⟨_, middle, hmark, hmore⟩ := Parser.bind_eq_ok_iff.mp h
          obtain ⟨mark, rfl, hmarkKind⟩ := Parser.expect_eq_ok_iff.mp hmark
          obtain ⟨expr, last, hexpr, hend⟩ := Parser.bind_eq_ok_iff.mp hmore
          obtain ⟨part, hpart, rfl⟩ := Parser.sound_expr _ _ _ hexpr
          obtain ⟨_, _, hclosing, hpure⟩ := Parser.bind_eq_ok_iff.mp hend
          obtain ⟨rfl, rfl⟩ := Parser.pure_eq_ok_iff.mp hpure
          obtain ⟨closing, rfl, hclosingKind⟩ := Parser.expect_eq_ok_iff.mp hclosing
          exact ⟨_, .write htoken hmarkKind hpart hclosingKind, by simp⟩
      | if_ =>
          simp only [hkind, Parser.advance_bind, hnext] at h
          obtain ⟨cond, middle, hcond, hmore⟩ := Parser.bind_eq_ok_iff.mp h
          obtain ⟨opening, closing, part, hopening, hpart, hclosing, rfl⟩ :=
            Parser.condition_sound hcond
          obtain ⟨thenBody, last, hthen, hend⟩ := Parser.bind_eq_ok_iff.mp hmore
          obtain ⟨_, ⟨hframed, hstmts⟩, rfl⟩ := hblock _ _ _ hthen
          rw [Parser.peek_bind] at hend
          by_cases helse : (nextToken last).kind = .keyword .else_
          · rw [if_pos helse] at hend
            obtain ⟨other, behind, rfl, hother⟩ :=
              eq_cons_of_nextToken helse (by simp)
            rw [Parser.advance_bind, afterNext_cons (by simp [hother])] at hend
            obtain ⟨elseBody, _, helseBody, hpure⟩ := Parser.bind_eq_ok_iff.mp hend
            obtain ⟨rfl, rfl⟩ := Parser.pure_eq_ok_iff.mp hpure
            obtain ⟨_, ⟨helseFramed, helseStmts⟩, rfl⟩ := hblock _ _ _ helseBody
            exact ⟨_, .ifElse htoken hopening hpart hclosing hframed hstmts hother
              helseFramed helseStmts, by simp⟩
          · rw [if_neg helse] at hend
            obtain ⟨rfl, rfl⟩ := Parser.pure_eq_ok_iff.mp hend
            exact ⟨_, .ifThen htoken hopening hpart hclosing hframed hstmts, by simp⟩
      | while_ =>
          simp only [hkind, Parser.advance_bind, hnext] at h
          obtain ⟨cond, middle, hcond, hmore⟩ := Parser.bind_eq_ok_iff.mp h
          obtain ⟨opening, closing, part, hopening, hpart, hclosing, rfl⟩ :=
            Parser.condition_sound hcond
          obtain ⟨body, last, hbody, hpure⟩ := Parser.bind_eq_ok_iff.mp hmore
          obtain ⟨rfl, rfl⟩ := Parser.pure_eq_ok_iff.mp hpure
          obtain ⟨_, ⟨hframed, hstmts⟩, rfl⟩ := hblock _ _ _ hbody
          exact ⟨_, .while_ htoken hopening hpart hclosing hframed hstmts, by simp⟩
      | return_ =>
          simp only [hkind, Parser.advance_bind, hnext] at h
          obtain ⟨value, middle, hvalue, hend⟩ := Parser.bind_eq_ok_iff.mp h
          obtain ⟨_, _, hclosing, hpure⟩ := Parser.bind_eq_ok_iff.mp hend
          obtain ⟨rfl, rfl⟩ := Parser.pure_eq_ok_iff.mp hpure
          obtain ⟨closing, rfl, hclosingKind⟩ := Parser.expect_eq_ok_iff.mp hclosing
          rw [Parser.returnValue?, Parser.sees_bind] at hvalue
          split at hvalue
          · obtain ⟨rfl, rfl⟩ := Parser.pure_eq_ok_iff.mp hvalue
            exact ⟨_, .retNone htoken hclosingKind, by simp⟩
          · obtain ⟨expr, _, hexpr, hpure⟩ := Parser.bind_eq_ok_iff.mp hvalue
            obtain ⟨rfl, rfl⟩ := Parser.pure_eq_ok_iff.mp hpure
            obtain ⟨part, hpart, rfl⟩ := Parser.sound_expr _ _ _ hexpr
            exact ⟨_, .retSome htoken hpart hclosingKind, by simp⟩
      | _ =>
          simp only [hkind] at h
          exact hexprStmt h
  | _ =>
      simp only [hkind] at h
      exact hexprStmt h

/-- A declaration or a statement of a repetition, with its derivation. -/
theorem Parser.blockVariable?_some {tokens rest : List Token} {decl : Decl}
    (h : Parser.blockVariable? tokens = .ok (some decl) rest) :
    Parser.varDecl tokens = .ok decl rest := by
  rw [Parser.blockVariable?, Parser.peek_bind] at h
  split at h
  · obtain ⟨_, _, hdecl, hpure⟩ := Parser.bind_eq_ok_iff.mp h
    obtain ⟨hsome, rfl⟩ := Parser.pure_eq_ok_iff.mp hpure
    cases hsome
    exact hdecl
  · exact absurd (Parser.pure_eq_ok_iff.mp h).1 (by simp)

theorem Parser.blockVariable?_none {tokens rest : List Token}
    (h : Parser.blockVariable? tokens = .ok none rest) : tokens = rest := by
  rw [Parser.blockVariable?, Parser.peek_bind] at h
  split at h
  · obtain ⟨_, _, _, hpure⟩ := Parser.bind_eq_ok_iff.mp h
    exact absurd (Parser.pure_eq_ok_iff.mp hpure).1 (by simp)
  · exact (Parser.pure_eq_ok_iff.mp h).2

theorem Parser.blockStmt?_some {block : Parser Block} {tokens rest : List Token}
    {stmt : Stmt} (h : Parser.blockStmt? block tokens = .ok (some stmt) rest) :
    Parser.stmt block tokens = .ok stmt rest := by
  rw [Parser.blockStmt?, Parser.peek_bind] at h
  split at h
  · exact absurd (Parser.pure_eq_ok_iff.mp h).1 (by simp)
  · split at h
    · exact absurd h (by simp)
    · obtain ⟨_, _, hstmt, hpure⟩ := Parser.bind_eq_ok_iff.mp h
      obtain ⟨hsome, rfl⟩ := Parser.pure_eq_ok_iff.mp hpure
      cases hsome
      exact hstmt

theorem Parser.blockStmt?_none {block : Parser Block} {tokens rest : List Token}
    (h : Parser.blockStmt? block tokens = .ok none rest) : tokens = rest := by
  rw [Parser.blockStmt?, Parser.peek_bind] at h
  split at h
  · exact (Parser.pure_eq_ok_iff.mp h).2
  · split at h
    · exact absurd h (by simp)
    · obtain ⟨_, _, _, hpure⟩ := Parser.bind_eq_ok_iff.mp h
      exact absurd (Parser.pure_eq_ok_iff.mp hpure).1 (by simp)

@[simp] theorem BlockParts.tokens_derivation (parts : BlockParts) :
    parts.derivation.tokens =
      parts.opening :: (parts.decls.flatMap fun decl => decl.1.tokens) ++
        (parts.stmts.flatMap fun stmt => stmt.1.tokens) ++ [parts.closing] := by
  simp [BlockParts.derivation, List.flatMap_map]

theorem Parser.sound_blockBody {block : Parser Block}
    (hfront : Parser.TakesFront block) (hblock : Parser.Sound block DerivesBlock) :
    Parser.Sound (Parser.blockBody block) DerivesBlock := by
  intro tokens answer rest h
  obtain ⟨_, inside, hopening, hmore⟩ := Parser.bind_eq_ok_iff.mp h
  obtain ⟨opening, rfl, hopeningKind⟩ := Parser.expect_eq_ok_iff.mp hopening
  obtain ⟨decls, middle, hdecls, hmore⟩ := Parser.bind_eq_ok_iff.mp hmore
  obtain ⟨stmts, last, hstmts, hend⟩ := Parser.bind_eq_ok_iff.mp hmore
  obtain ⟨_, _, hclosing, hpure⟩ := Parser.bind_eq_ok_iff.mp hend
  obtain ⟨rfl, rfl⟩ := Parser.pure_eq_ok_iff.mp hpure
  obtain ⟨closing, rfl, hclosingKind⟩ := Parser.expect_eq_ok_iff.mp hclosing
  have hdecl : ∀ tokens answer rest,
      Parser.blockVariable? tokens = .ok (some answer) rest →
      ∃ part : Derivation × Decl, DerivesVarDecl part.1 part.2 ∧
        part.2 = answer ∧ tokens = part.1.tokens ++ rest := by
    intro tokens answer rest hstep
    obtain ⟨part, hpart, rfl⟩ :=
      Parser.varDecl_eq_ok_iff.mp (Parser.blockVariable?_some hstep)
    exact ⟨(part, answer), hpart, rfl, rfl⟩
  have hstmt : ∀ tokens answer rest,
      Parser.blockStmt? block tokens = .ok (some answer) rest →
      ∃ part : Derivation × Stmt, DerivesStmt part.1 part.2 ∧
        part.2 = answer ∧ tokens = part.1.tokens ++ rest := by
    intro tokens answer rest hstep
    obtain ⟨part, hpart, rfl⟩ :=
      Parser.sound_stmt hblock _ _ _ (Parser.blockStmt?_some hstep)
    exact ⟨(part, answer), hpart, rfl, rfl⟩
  obtain ⟨declParts, hdeclParts, rfl, rfl⟩ := Parser.collect_sound
    (fun part : Derivation × Decl => part.1.tokens) Prod.snd
    Parser.takesFront_blockVariable? Parser.consumes_blockVariable?
    (fun part => DerivesVarDecl part.1 part.2) hdecl
    (fun _ _ hnone => Parser.blockVariable?_none hnone) hdecls
  obtain ⟨stmtParts, hstmtParts, rfl, rfl⟩ := Parser.collect_sound
    (fun part : Derivation × Stmt => part.1.tokens) Prod.snd
    (Parser.alike_blockStmt? (.refl hfront 0)).left
    (Parser.consumes_blockStmt? hfront)
    (fun part => DerivesStmt part.1 part.2) hstmt
    (fun _ _ hnone => Parser.blockStmt?_none hnone) hstmts
  let parts : BlockParts := ⟨opening, declParts, stmtParts, closing⟩
  have hframed : parts.Framed := ⟨hopeningKind, hdeclParts, hclosingKind⟩
  exact ⟨parts.derivation, .block hframed hstmtParts, by simp [parts]⟩

theorem Parser.sound_block : Parser.Sound Parser.block DerivesBlock :=
  Parser.sound_fix Parser.progressive_blockBody fun _ => Parser.sound_blockBody

theorem Parser.field?_some {tokens rest : List Token} {decl : Decl}
    (h : Parser.field? tokens = .ok (some decl) rest) :
    Parser.varDecl tokens = .ok decl rest := by
  rw [Parser.field?, Parser.peek_bind] at h
  split at h
  · exact absurd (Parser.pure_eq_ok_iff.mp h).1 (by simp)
  · split at h
    · obtain ⟨_, _, hdecl, hpure⟩ := Parser.bind_eq_ok_iff.mp h
      obtain ⟨hsome, rfl⟩ := Parser.pure_eq_ok_iff.mp hpure
      cases hsome
      exact hdecl
    · exact absurd h (by simp)

theorem Parser.field?_none {tokens rest : List Token}
    (h : Parser.field? tokens = .ok none rest) : tokens = rest := by
  rw [Parser.field?, Parser.peek_bind] at h
  split at h
  · exact (Parser.pure_eq_ok_iff.mp h).2
  · split at h
    · obtain ⟨_, _, _, hpure⟩ := Parser.bind_eq_ok_iff.mp h
      exact absurd (Parser.pure_eq_ok_iff.mp hpure).1 (by simp)
    · exact absurd h (by simp)

theorem Parser.fields_sound {name : String} {tokens rest : List Token}
    {fields : List Decl} (h : Parser.fields name tokens = .ok fields rest) :
    ∃ parts : List (Derivation × Decl), parts ≠ [] ∧
      (∀ part ∈ parts, DerivesVarDecl part.1 part.2) ∧
      parts.map Prod.snd = fields ∧
      tokens = (parts.flatMap fun part => part.1.tokens) ++ rest := by
  obtain ⟨decls, middle, hdecls, hend⟩ := Parser.bind_eq_ok_iff.mp h
  have hdecl : ∀ tokens answer rest,
      Parser.field? tokens = .ok (some answer) rest →
      ∃ part : Derivation × Decl, DerivesVarDecl part.1 part.2 ∧
        part.2 = answer ∧ tokens = part.1.tokens ++ rest := by
    intro tokens answer rest hstep
    obtain ⟨part, hpart, rfl⟩ :=
      Parser.varDecl_eq_ok_iff.mp (Parser.field?_some hstep)
    exact ⟨(part, answer), hpart, rfl, rfl⟩
  obtain ⟨parts, hparts, rfl, rfl⟩ := Parser.collect_sound
    (fun part : Derivation × Decl => part.1.tokens) Prod.snd
    Parser.takesFront_field? Parser.consumes_field?
    (fun part => DerivesVarDecl part.1 part.2) hdecl
    (fun _ _ hnone => Parser.field?_none hnone) hdecls
  split at hend
  · exact absurd hend (by simp)
  · next hnonempty =>
      obtain ⟨rfl, rfl⟩ := Parser.pure_eq_ok_iff.mp hend
      exact ⟨parts, by simpa using hnonempty, hparts, rfl, rfl⟩

theorem Parser.sound_structDecl {tokens rest : List Token} {decl : Decl}
    (hstruct : (nextToken tokens).kind = .keyword .struct)
    (h : Parser.structDecl tokens = .ok decl rest) :
    ∃ part, DerivesDecl part decl ∧ tokens = part.tokens ++ rest := by
  obtain ⟨token, others, rfl, htoken⟩ := eq_cons_of_nextToken hstruct (by simp)
  rw [Parser.structDecl, Parser.advance_bind, afterNext_cons (by simp [htoken])] at h
  obtain ⟨id, _, hid, hbody⟩ := Parser.bind_eq_ok_iff.mp h
  obtain ⟨word, name, rfl, hword, rfl⟩ := Parser.ident_eq_ok_iff.mp hid
  obtain ⟨_, _, hopening, hinside⟩ := Parser.bind_eq_ok_iff.mp hbody
  obtain ⟨opening, rfl, hopeningKind⟩ := Parser.expect_eq_ok_iff.mp hopening
  obtain ⟨fields, _, hfields, hend⟩ := Parser.bind_eq_ok_iff.mp hinside
  obtain ⟨parts, hnonempty, hparts, rfl, rfl⟩ := Parser.fields_sound hfields
  obtain ⟨_, _, hclosing, hlast⟩ := Parser.bind_eq_ok_iff.mp hend
  obtain ⟨closing, rfl, hclosingKind⟩ := Parser.expect_eq_ok_iff.mp hclosing
  obtain ⟨_, _, hstop, hpure⟩ := Parser.bind_eq_ok_iff.mp hlast
  obtain ⟨stop, rfl, hstopKind⟩ := Parser.expect_eq_ok_iff.mp hstop
  obtain ⟨rfl, rfl⟩ := Parser.pure_eq_ok_iff.mp hpure
  refine ⟨_, .struct htoken hword hopeningKind hnonempty hparts hclosingKind
    hstopKind, ?_⟩
  simp [List.flatMap_map]

/-- Looking whether a struct is declared takes no token. -/
theorem Parser.atStructDecl_eq (tokens : List Token) :
    Parser.atStructDecl tokens =
      (pure (match (nextToken (tokens.drop 1)).kind with
        | .ident _ =>
            decide ((nextToken (tokens.drop 2)).kind = .punct .leftBrace)
        | _ => false) : Parser Bool) tokens := by
  rw [Parser.atStructDecl, Parser.peekAt_bind]
  cases (nextToken (tokens.drop 1)).kind <;> rfl

theorem Parser.sound_decl : Parser.Sound Parser.decl DerivesDecl := by
  intro tokens answer rest h
  rw [Parser.decl, Parser.peek_bind] at h
  by_cases hstruct : (nextToken tokens).kind = .keyword .struct
  · rw [if_pos hstruct] at h
    obtain ⟨isStruct, middle, hat, hmore⟩ := Parser.bind_eq_ok_iff.mp h
    have hsame : tokens = middle := by
      rw [Parser.atStructDecl_eq] at hat
      exact (Parser.pure_eq_ok_iff.mp hat).2
    subst hsame
    split at hmore
    · exact Parser.sound_structDecl hstruct hmore
    · obtain ⟨part, hpart, rfl⟩ := Parser.varDecl_eq_ok_iff.mp hmore
      exact ⟨_, .var hpart, by simp⟩
  · rw [if_neg hstruct] at h
    obtain ⟨type, middle, htype, hmore⟩ := Parser.bind_eq_ok_iff.mp h
    obtain ⟨part, hpart, rfl⟩ := Parser.type_eq_ok_iff.mp htype
    obtain ⟨id, last, hid, hend⟩ := Parser.bind_eq_ok_iff.mp hmore
    obtain ⟨word, name, rfl, hword, rfl⟩ := Parser.ident_eq_ok_iff.mp hid
    rw [Parser.sees_bind] at hend
    split at hend
    · obtain ⟨formals, _, hformals, hbody⟩ := Parser.bind_eq_ok_iff.mp hend
      obtain ⟨opening, closing, listing, hopening, hseparated, hmembers, hclosing,
        rfl, rfl⟩ := Parser.parenthesized_sound Parser.takesFront_formal
          (fun _ _ _ h => Parser.formal_eq_ok_iff.mp h) hformals
      obtain ⟨body, _, hblock, hpure⟩ := Parser.bind_eq_ok_iff.mp hbody
      obtain ⟨rfl, rfl⟩ := Parser.pure_eq_ok_iff.mp hpure
      obtain ⟨bodyPart, hbodyPart, rfl⟩ := Parser.sound_block _ _ _ hblock
      have hplain : ∀ id, type ≠ .struct id := by
        rintro id rfl
        cases hpart with
        | struct htoken hname => exact hstruct (by simpa using htoken)
      refine ⟨_, .func hpart hplain hword hopening hseparated hmembers hclosing
        hbodyPart, ?_⟩
      simp [Listing.tokens]
    · obtain ⟨_, _, hclosing, hpure⟩ := Parser.bind_eq_ok_iff.mp hend
      obtain ⟨rfl, rfl⟩ := Parser.pure_eq_ok_iff.mp hpure
      obtain ⟨closing, rfl, hkind⟩ := Parser.expect_eq_ok_iff.mp hclosing
      exact ⟨_, .var (.var hpart hword hkind), by simp⟩

theorem Parser.decl?_some {tokens rest : List Token} {decl : Decl}
    (h : Parser.decl? tokens = .ok (some decl) rest) :
    Parser.decl tokens = .ok decl rest := by
  rw [Parser.decl?, Parser.peek_bind] at h
  split at h
  · exact absurd (Parser.pure_eq_ok_iff.mp h).1 (by simp)
  · obtain ⟨_, _, hdecl, hpure⟩ := Parser.bind_eq_ok_iff.mp h
    obtain ⟨hsome, rfl⟩ := Parser.pure_eq_ok_iff.mp hpure
    cases hsome
    exact hdecl

theorem Parser.decl?_eq_none_iff {tokens rest : List Token} :
    Parser.decl? tokens = .ok none rest ↔
      (nextToken tokens).isEof = true ∧ tokens = rest := by
  rw [Parser.decl?, Parser.peek_bind]
  by_cases heof : (nextToken tokens).isEof = true
  · rw [if_pos heof, Parser.pure_eq_ok_iff]
    simp [heof]
  · rw [if_neg heof]
    constructor
    · intro h
      obtain ⟨_, _, _, hpure⟩ := Parser.bind_eq_ok_iff.mp h
      exact absurd (Parser.pure_eq_ok_iff.mp hpure).1 (by simp)
    · exact fun h => absurd h.1 heof

theorem Parser.sound_program : Parser.Sound Parser.program DerivesProgram := by
  intro tokens answer rest h
  obtain ⟨decls, middle, hdecls, hpure⟩ := Parser.bind_eq_ok_iff.mp h
  obtain ⟨rfl, rfl⟩ := Parser.pure_eq_ok_iff.mp hpure
  have hdecl : ∀ tokens answer rest,
      Parser.decl? tokens = .ok (some answer) rest →
      ∃ part : Derivation × Decl, DerivesDecl part.1 part.2 ∧
        part.2 = answer ∧ tokens = part.1.tokens ++ rest := by
    intro tokens answer rest hstep
    obtain ⟨part, hpart, rfl⟩ :=
      Parser.sound_decl _ _ _ (Parser.decl?_some hstep)
    exact ⟨(part, answer), hpart, rfl, rfl⟩
  obtain ⟨parts, hparts, rfl, rfl⟩ := Parser.collect_sound
    (fun part : Derivation × Decl => part.1.tokens) Prod.snd
    Parser.takesFront_decl? Parser.consumes_decl?
    (fun part => DerivesDecl part.1 part.2) hdecl
    (fun _ _ hnone => (Parser.decl?_eq_none_iff.mp hnone).2) hdecls
  exact ⟨_, .program hparts, by simp [List.flatMap_map]⟩

end MiniLang

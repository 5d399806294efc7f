/-
Completeness of the grammar of expressions: in front of anything where a phrase can
end, its parser reads what a derivation derives and answers the tree of the derivation.
-/
import MiniLang.Proofs.Grammar.Soundness

namespace MiniLang

variable {α : Type}

/-- Whether the production of a level takes a token behind a phrase of the next
closer level. -/
def Level.takes : Level → TokenKind → Bool
  | .assignment, kind => kind == .punct .equal
  | .disjunction, kind => (chooseOr kind).isSome
  | .conjunction, kind => (chooseAnd kind).isSome
  | .comparison, kind => (chooseRelational kind).isSome
  | .sum, kind => (chooseAdditive kind).isSome
  | .product, kind => (chooseMultiplicative kind).isSome
  | .unary, _ => false
  | .term, kind => kind == .punct .dot || kind == .punct .leftParen

/-- A level and all that are closer. -/
def Level.closer : Level → List Level
  | .assignment => [.assignment, .disjunction, .conjunction, .comparison, .sum,
      .product, .unary, .term]
  | .disjunction => [.disjunction, .conjunction, .comparison, .sum, .product, .unary,
      .term]
  | .conjunction => [.conjunction, .comparison, .sum, .product, .unary, .term]
  | .comparison => [.comparison, .sum, .product, .unary, .term]
  | .sum => [.sum, .product, .unary, .term]
  | .product => [.product, .unary, .term]
  | .unary => [.unary, .term]
  | .term => [.term]

/-- Whether a phrase of a level can end in front of a list: what stands there makes
no longer phrase of it. -/
def Level.Ends (level : Level) (tokens : List Token) : Prop :=
  ∀ closer ∈ level.closer, closer.takes (nextToken tokens).kind = false

theorem Level.ends_operand {level : Level} {tokens : List Token}
    (h : level.Ends tokens) : level.operand.Ends tokens := by
  intro closer hcloser
  refine h closer ?_
  cases level <;> first | exact List.mem_cons_of_mem _ hcloser | exact hcloser

/-- The level whose production takes an operator or a punctuation mark. -/
def Punct.level? : Punct → Option Level
  | .equal => some .assignment
  | .orOr => some .disjunction
  | .andAnd => some .conjunction
  | .equalEqual | .bangEqual | .less | .greater | .lessEqual | .greaterEqual =>
      some .comparison
  | .plus | .minus => some .sum
  | .star | .slash => some .product
  | .dot | .leftParen => some .term
  | _ => none

theorem Level.takes_punct (level : Level) (mark : Punct) :
    level.takes (.punct mark) = (mark.level? == some level) := by
  cases level <;> cases mark <;> rfl

theorem Level.not_mem_closer_operand {level : Level} (h : level ≠ .term) :
    level ∉ level.operand.closer := by
  cases level with
  | term => exact absurd rfl h
  | _ => decide

/-- Operands end in front of what their level takes. -/
theorem Level.ends_of_takes {level : Level} (hlevel : level ≠ .term) {mark : Token}
    (hmark : level.takes mark.kind = true) (rest : List Token) :
    level.operand.Ends (mark :: rest) := by
  intro closer hcloser
  rw [nextToken_cons]
  cases hkind : mark.kind with
  | punct punct =>
      rw [hkind, Level.takes_punct, beq_iff_eq] at hmark
      rw [Level.takes_punct, hmark, beq_eq_false_iff_ne]
      intro hsame
      exact Level.not_mem_closer_operand hlevel (Option.some.inj hsame ▸ hcloser)
  | _ => cases closer <;> rfl

theorem Level.takes_of_operator {level : Level} {choose : TokenKind → Option BinaryOp}
    (hlevel : level.operator? = some choose) (kind : TokenKind) :
    level.takes kind = (choose kind).isSome := by
  cases level <;> cases hlevel <;> rfl

theorem Level.ends_of_operator {level : Level} {choose : TokenKind → Option BinaryOp}
    (hlevel : level.operator? = some choose) {mark : Token} {op : BinaryOp}
    (hmark : choose mark.kind = some op) (rest : List Token) :
    level.operand.Ends (mark :: rest) := by
  apply Level.ends_of_takes
  · rintro rfl
    cases hlevel
  · rw [Level.takes_of_operator hlevel, hmark, Option.isSome_some]

theorem Level.mem_closer (level : Level) : level ∈ level.closer := by
  cases level <;> exact List.mem_cons_self

theorem Level.not_operator_of_ends {level : Level}
    {choose : TokenKind → Option BinaryOp} (hlevel : level.operator? = some choose)
    {tokens : List Token} (h : level.Ends tokens) :
    choose (nextToken tokens).kind = none := by
  have htakes := h level level.mem_closer
  rw [Level.takes_of_operator hlevel, Option.isSome_eq_false_iff] at htakes
  exact Option.isNone_iff_eq_none.mp htakes

theorem Level.ends_of_relational {mark : Token} {op : BinaryOp}
    (hmark : chooseRelational mark.kind = some op) (rest : List Token) :
    Level.sum.Ends (mark :: rest) := by
  have htakes : Level.comparison.takes mark.kind = true :=
    Option.isSome_of_eq_some hmark
  exact Level.ends_of_takes (by decide) htakes rest

/-- Where a whole expression ends: in front of a mark that no level takes. -/
theorem Level.ends_of_kind (level : Level) {token : Token} {kind : TokenKind}
    (htoken : token.kind = kind)
    (hkind : ∀ closer : Level, closer.takes kind = false) (rest : List Token) :
    level.Ends (token :: rest) := by
  intro closer _
  rw [nextToken_cons, htoken, hkind]

theorem Level.endsInList_assignment : EndsInList Level.assignment.Ends :=
  ⟨fun _ rest h =>
      Level.ends_of_kind _ h (by intro closer; cases closer <;> rfl) rest,
    fun _ rest h =>
      Level.ends_of_kind _ h (by intro closer; cases closer <;> rfl) rest⟩

def startsTerm : TokenKind → Bool
  | .ident _ => true
  | .int _ => true
  | .str _ => true
  | .keyword .true_ => true
  | .keyword .false_ => true
  | .punct .leftParen => true
  | _ => false

def startsExpr (kind : TokenKind) : Bool :=
  startsTerm kind || (chooseUnary kind).isSome

/-- Kinds that a test tells apart are different. -/
theorem ne_of_starts {starts : TokenKind → Bool} {kind other : TokenKind}
    (hstart : starts kind = true) (hother : starts other = false) : kind ≠ other := by
  rintro rfl
  exact absurd hstart (ne_true_of_eq_false hother)

theorem DerivesLoc.head {part : Derivation} {loc : Expr} (h : DerivesLoc part loc) :
    ∃ word name rest, part.tokens = word :: rest ∧ word.kind = .ident name := by
  cases h with
  | @access word name accesses hword _ =>
      exact ⟨word, name, _, by simp; rfl, hword⟩

theorem DerivesExpr.head_of_term {part : Derivation} {expr : Expr}
    (h : DerivesExpr .term part expr) :
    ∃ token rest, part.tokens = token :: rest ∧ startsTerm token.kind = true := by
  cases h with
  | chain hlevel => cases hlevel
  | @int token value htoken => exact ⟨token, [], by simp, by rw [htoken]; rfl⟩
  | @str token text htoken => exact ⟨token, [], by simp, by rw [htoken]; rfl⟩
  | @trueWord token htoken => exact ⟨token, [], by simp, by rw [htoken]; rfl⟩
  | @falseWord token htoken => exact ⟨token, [], by simp, by rw [htoken]; rfl⟩
  | @paren opening closing part expr hopening _ _ =>
      exact ⟨opening, _, by simp; rfl, by rw [hopening]; rfl⟩
  | @call word opening closing name args hword _ _ _ _ =>
      exact ⟨word, _, by simp; rfl, by rw [hword]; rfl⟩
  | loc hpart =>
      obtain ⟨word, name, rest, htokens, hword⟩ := hpart.head
      exact ⟨word, rest, by simpa using htokens, by rw [hword]; rfl⟩

/-- Every phrase of an expression starts with a token that an expression can start
with. -/
theorem DerivesExpr.head {level : Level} {part : Derivation} {expr : Expr}
    (h : DerivesExpr level part expr) :
    ∃ token rest, part.tokens = token :: rest ∧ startsExpr token.kind = true := by
  have hterm : ∀ {part : Derivation} {expr : Expr}, DerivesExpr .term part expr →
      ∃ token rest, part.tokens = token :: rest ∧ startsExpr token.kind = true := by
    intro part expr hpart
    obtain ⟨token, rest, htokens, hstart⟩ := hpart.head_of_term
    exact ⟨token, rest, htokens, by rw [startsExpr, hstart, Bool.true_or]⟩
  induction h with
  | plain _ ih | uncompared _ ih =>
      obtain ⟨token, rest, htokens, hstart⟩ := ih
      exact ⟨token, rest, by simpa using htokens, hstart⟩
  | assign _ _ _ _ ih | chain _ _ _ _ ih | compared _ _ _ ih =>
      obtain ⟨token, rest, htokens, hstart⟩ := ih
      exact ⟨token, _, by simp [htokens]; rfl, hstart⟩
  | @marked mark op part operand hmark _ _ =>
      exact ⟨mark, _, by simp; rfl, by simp [startsExpr, hmark]⟩
  | unmarked hpart _ =>
      obtain ⟨token, rest, htokens, hstart⟩ := hterm hpart
      exact ⟨token, rest, by simpa using htokens, hstart⟩
  | int htoken => exact hterm (.int htoken)
  | str htoken => exact hterm (.str htoken)
  | trueWord htoken => exact hterm (.trueWord htoken)
  | falseWord htoken => exact hterm (.falseWord htoken)
  | paren hopening hpart hclosing _ => exact hterm (.paren hopening hpart hclosing)
  | call hword hopening hseparated hargs hclosing _ =>
      exact hterm (.call hword hopening hseparated hargs hclosing)
  | loc hpart => exact hterm (.loc hpart)

theorem Level.ends_of_equal {mark : Token} (hmark : mark.kind = .punct .equal)
    (rest : List Token) : Level.disjunction.Ends (mark :: rest) := by
  have htakes : Level.assignment.takes mark.kind = true := by
    rw [hmark]
    rfl
  exact Level.ends_of_takes (by decide) htakes rest

theorem Level.not_relational_of_ends {tokens : List Token}
    (h : Level.comparison.Ends tokens) :
    chooseRelational (nextToken tokens).kind = none := by
  have htakes := h .comparison Level.comparison.mem_closer
  exact Option.isNone_iff_eq_none.mp (Option.isSome_eq_false_iff.mp htakes)

/-- The parser of the phrases of a level. -/
def Parser.ofLevel : Level → Parser Expr
  | .assignment => Parser.expr
  | .disjunction => Parser.disjunction Parser.expr
  | .conjunction => Parser.conjunction Parser.expr
  | .comparison => Parser.relational Parser.expr
  | .sum => Parser.additive Parser.expr
  | .product => Parser.multiplicative Parser.expr
  | .unary => Parser.unary Parser.expr
  | .term => Parser.term Parser.expr

theorem Parser.ofLevel_eq_chain {level : Level} {choose : TokenKind → Option BinaryOp}
    (hlevel : level.operator? = some choose) :
    Parser.ofLevel level = Parser.chain choose (Parser.ofLevel level.operand) := by
  cases level <;> cases hlevel <;> rfl

theorem Parser.takesFront_ofLevel (level : Level) :
    Parser.TakesFront (Parser.ofLevel level) := by
  have hexpr := Parser.Alike.refl Parser.takesFront_expr 0
  have hrelational := Parser.alike_relational hexpr
  have hunary := Parser.alike_unary hexpr
  cases level with
  | assignment => exact Parser.takesFront_expr
  | disjunction => exact (Parser.alike_disjunction hexpr).left
  | conjunction => exact (Parser.alike_chain .conjunction rfl hrelational).left
  | comparison => exact hrelational.left
  | sum => exact (Parser.alike_additive hexpr).left
  | product => exact (Parser.alike_chain .product rfl hunary).left
  | unary => exact hunary.left
  | term => exact Parser.takesFront_term Parser.takesFront_expr

theorem Parser.reads_loc {part : Derivation} {loc : Expr} (h : DerivesLoc part loc) :
    Parser.Reads Parser.loc (fun rest => (nextToken rest).kind ≠ .punct .dot)
      part loc := by
  intro rest hrest
  cases h with
  | @access word name accesses hword haccesses =>
      have hid : Parser.ident (word :: (accesses.flatMap
          (fun access => [access.dot, access.word]) ++ rest)) =
          .ok (word.ident name) (accesses.flatMap
            (fun access => [access.dot, access.word]) ++ rest) :=
        Parser.ident_eq_ok_iff.mpr ⟨word, name, rfl, hword, rfl⟩
      have hcollect := Parser.collect_complete
        (fun access : FieldAccess => [access.dot, access.word]) FieldAccess.id
        (Parser.takesFront_after? fun _ => Parser.takesFront_ident)
        (Parser.consumes_after? (punctual_chooseMark .dot)
          fun _ => Parser.takesFront_ident)
        (fun _ => True) rest (Parser.after?_eq_none (by simp [chooseMark, hrest]))
        trivial accesses (fun _ _ _ => trivial) ?_
      · simp only [Derivation.tokens_node, List.flatMap_cons, Derivation.tokens_leaf,
          List.flatMap_assoc, FieldAccess.parts, List.flatMap_nil, List.cons_append,
          List.nil_append]
        rw [Parser.loc, Parser.bind_of_ok hid, Parser.bind_of_ok hcollect]
        rfl
      · intro access haccess behind _
        obtain ⟨hdot, hfield⟩ := haccesses access haccess
        refine (Parser.after?_eq_some_iff (punctual_chooseMark .dot)).mpr
          ⟨access.dot, access.word :: behind, (), rfl, by simp [chooseMark, hdot], ?_⟩
        exact Parser.ident_eq_ok_iff.mpr ⟨_, _, rfl, hfield, rfl⟩

/-- A row of operands is read up to where its level ends. -/
theorem Parser.reads_chain {level : Level} {choose : TokenKind → Option BinaryOp}
    {operand : Parser Expr} (hlevel : level.operator? = some choose)
    (hfront : Parser.TakesFront operand) {part : Derivation} {first : Expr}
    {others : List Operand}
    (hfirst : Parser.Reads operand level.operand.Ends part first)
    (hmarks : ∀ other ∈ others, choose other.mark.kind = some other.op)
    (hothers : ∀ other ∈ others,
      Parser.Reads operand level.operand.Ends other.part other.value) :
    Parser.Reads (Parser.chain choose operand) level.Ends
      (.node (.expr level) (part :: others.flatMap Operand.parts))
      (joinOperands first others) := by
  intro rest hrest
  have hpunctual := Level.punctual_of_operator? hlevel
  have hitem := Parser.takesFront_operand hfront
  have hoperands : ∀ other ∈ others, ∀ behind,
      level.operand.Ends (other.mark :: other.part.tokens ++ behind) :=
    fun other hother behind =>
      Level.ends_of_operator hlevel (hmarks other hother) _
  have hcollect := Parser.collect_complete
    (fun other : Operand => other.mark :: other.part.tokens)
    (fun other => (other.op, other.value))
    (Parser.takesFront_after? hitem) (Parser.consumes_after? hpunctual hitem)
    level.operand.Ends rest
    (Parser.after?_eq_none (Level.not_operator_of_ends hlevel hrest))
    (Level.ends_operand hrest) others hoperands ?_
  · have hbehind : level.operand.Ends
        (others.flatMap (fun other => other.mark :: other.part.tokens) ++ rest) := by
      cases others with
      | nil => exact Level.ends_operand hrest
      | cons other others =>
          exact Level.ends_of_operator hlevel (hmarks other (by simp)) _
    simp only [Derivation.tokens_node, List.flatMap_cons, List.flatMap_assoc,
      Operand.parts, Derivation.tokens_leaf, List.flatMap_nil, List.append_assoc,
      List.append_nil, List.cons_append, List.nil_append]
    rw [Parser.chain, Parser.bind_of_ok (hfirst _ hbehind),
      Parser.bind_of_ok hcollect, joinOperands]
    simp [List.foldl_map]
  · intro other hother behind hbehind
    refine (Parser.after?_eq_some_iff hpunctual).mpr
      ⟨other.mark, other.part.tokens ++ behind, other.op, rfl,
        hmarks other hother, ?_⟩
    exact Parser.bind_of_ok (hothers other hother behind hbehind)

theorem Parser.reads_uncompared {part : Derivation} {expr : Expr}
    (hpart : Parser.Reads (Parser.additive Parser.expr) Level.sum.Ends part expr) :
    Parser.Reads (Parser.relational Parser.expr) Level.comparison.Ends
      (.node (.expr .comparison) [part]) expr := by
  intro rest hrest
  have hnone : Parser.after? chooseRelational
      (fun op => do return (op, ← Parser.additive Parser.expr)) rest =
        .ok none rest :=
    Parser.after?_eq_none (Level.not_relational_of_ends hrest)
  simp only [Derivation.tokens_node, List.flatMap_cons, List.flatMap_nil,
    List.append_nil]
  exact (Parser.bind_of_ok (hpart _ (Level.ends_operand hrest))).trans
    (Parser.bind_of_ok hnone)

theorem Parser.reads_compared {left right : Derivation} {mark : Token}
    {op : BinaryOp} {lhs rhs : Expr}
    (hleft : Parser.Reads (Parser.additive Parser.expr) Level.sum.Ends left lhs)
    (hmark : chooseRelational mark.kind = some op)
    (hright : Parser.Reads (Parser.additive Parser.expr) Level.sum.Ends right rhs) :
    Parser.Reads (Parser.relational Parser.expr) Level.comparison.Ends
      (.node (.expr .comparison) [left, .leaf mark, right]) (.binary op lhs rhs) := by
  intro rest hrest
  have hother : Parser.after? chooseRelational
      (fun op => do return (op, ← Parser.additive Parser.expr))
        (mark :: (right.tokens ++ rest)) = .ok (some (op, rhs)) rest := by
    refine (Parser.after?_eq_some_iff punctual_chooseRelational).mpr
      ⟨mark, right.tokens ++ rest, op, rfl, hmark, ?_⟩
    exact Parser.bind_of_ok (hright _ (Level.ends_operand hrest))
  simp only [Derivation.tokens_node, List.flatMap_cons, Derivation.tokens_leaf,
    List.flatMap_nil, List.append_nil, List.append_assoc, List.cons_append,
    List.nil_append]
  rw [Parser.relational,
    Parser.bind_of_ok (hleft _ (Level.ends_of_relational hmark _)),
    Parser.bind_of_ok hother]
  dsimp only
  rw [Parser.peek_bind, Level.not_relational_of_ends hrest]
  rfl

theorem Parser.reads_marked {mark : Token} {op : UnaryOp} {part : Derivation}
    {operand : Expr} (hmark : chooseUnary mark.kind = some op)
    (hpart : Parser.Reads (Parser.unary Parser.expr) Level.unary.Ends part operand) :
    Parser.Reads (Parser.unary Parser.expr) Level.unary.Ends
      (.node (.expr .unary) [.leaf mark, part]) (.unary op operand) := by
  intro rest hrest
  obtain ⟨ops, middle, hops, hmore⟩ := Parser.bind_eq_ok_iff.mp (hpart rest hrest)
  obtain ⟨inner, last, hinner, hpure⟩ := Parser.bind_eq_ok_iff.mp hmore
  obtain ⟨rfl, rfl⟩ := Parser.pure_eq_ok_iff.mp hpure
  have hop : Parser.after? chooseUnary pure (mark :: (part.tokens ++ last)) =
      .ok (some op) (part.tokens ++ last) :=
    (Parser.after?_eq_some_iff punctual_chooseUnary).mpr
      ⟨mark, part.tokens ++ last, op, rfl, hmark, rfl⟩
  have hcollect : Parser.collect (Parser.after? chooseUnary pure)
      (mark :: (part.tokens ++ last)) = .ok (op :: ops) middle := by
    rw [Parser.collect_eq (Parser.takesFront_after? fun op => Parser.takesFront_pure op)
      (Parser.consumes_after? punctual_chooseUnary
        fun op => Parser.takesFront_pure op), Parser.round, Parser.bind_of_ok hop]
    exact Parser.bind_of_ok hops
  simp only [Derivation.tokens_node, List.flatMap_cons, Derivation.tokens_leaf,
    List.flatMap_nil, List.append_nil, List.cons_append, List.nil_append]
  rw [Parser.unary, Parser.bind_of_ok hcollect,
    Parser.bind_of_ok hinner]
  rfl

theorem chooseUnary_of_startsTerm {kind : TokenKind} (h : startsTerm kind = true) :
    chooseUnary kind = none := by
  cases kind with
  | punct mark => cases mark <;> first | rfl | exact absurd h (by decide)
  | _ => rfl

theorem Parser.reads_unmarked {part : Derivation} {expr : Expr}
    (hderives : DerivesExpr .term part expr)
    (hpart : Parser.Reads (Parser.term Parser.expr) Level.term.Ends part expr) :
    Parser.Reads (Parser.unary Parser.expr) Level.unary.Ends
      (.node (.expr .unary) [part]) expr := by
  intro rest hrest
  obtain ⟨token, others, htokens, hstart⟩ := hderives.head_of_term
  have hcollect : Parser.collect (Parser.after? chooseUnary pure)
      (part.tokens ++ rest) = .ok [] (part.tokens ++ rest) := by
    rw [Parser.collect_eq (Parser.takesFront_after? fun op => Parser.takesFront_pure op)
      (Parser.consumes_after? punctual_chooseUnary
        fun op => Parser.takesFront_pure op), Parser.round]
    refine Parser.bind_of_ok (Parser.after?_eq_none ?_)
    rw [htokens]
    exact chooseUnary_of_startsTerm hstart
  simp only [Derivation.tokens_node, List.flatMap_cons, List.flatMap_nil,
    List.append_nil]
  rw [Parser.unary, Parser.bind_of_ok hcollect,
    Parser.bind_of_ok (hpart _ (Level.ends_operand hrest))]
  rfl

theorem Parser.reads_paren {opening closing : Token} {part : Derivation} {expr : Expr}
    (hopening : opening.kind = .punct .leftParen)
    (hpart : Parser.Reads Parser.expr Level.assignment.Ends part expr)
    (hclosing : closing.kind = .punct .rightParen) :
    Parser.Reads (Parser.term Parser.expr) Level.term.Ends
      (.node (.expr .term) [.leaf opening, part, .leaf closing]) expr := by
  intro rest _
  have hends : Level.assignment.Ends (closing :: rest) :=
    Level.endsInList_assignment.closing closing rest hclosing
  have hend : Parser.expect .rightParen "after parenthesized expression"
      (closing :: rest) = .ok () rest :=
    Parser.expect_eq_ok_iff.mpr ⟨closing, rfl, hclosing⟩
  simp only [Derivation.tokens_node, List.flatMap_cons, Derivation.tokens_leaf,
    List.flatMap_nil, List.append_nil, List.append_assoc, List.cons_append,
    List.nil_append]
  rw [Parser.term, Parser.peek_bind]
  simp only [nextToken_cons, hopening]
  rw [Parser.advance_bind, afterNext_cons (by simp [hopening]),
    Parser.bind_of_ok (hpart _ hends), Parser.bind_of_ok hend]
  rfl

theorem DerivesExpr.not_rightParen {level : Level} {part : Derivation} {expr : Expr}
    (h : DerivesExpr level part expr) :
    ∃ token rest, part.tokens = token :: rest ∧
      token.kind ≠ .punct .rightParen := by
  obtain ⟨token, rest, htokens, hstart⟩ := h.head
  exact ⟨token, rest, htokens, ne_of_starts hstart rfl⟩

/-- A name in front of a parenthesis is read as a call. -/
theorem Parser.reads_call {word opening closing : Token} {name : String}
    {args : Listing Expr} (hword : word.kind = .ident name)
    (hopening : opening.kind = .punct .leftParen) (hseparated : args.Separated)
    (hderives : ∀ arg ∈ args.members, DerivesExpr .assignment arg.1 arg.2)
    (hargs : ∀ arg ∈ args.members,
      Parser.Reads Parser.expr Level.assignment.Ends arg.1 arg.2)
    (hclosing : closing.kind = .punct .rightParen) :
    Parser.Reads (Parser.term Parser.expr) Level.term.Ends
      (.node (.expr .term) [.node .call
        (.leaf word :: .leaf opening :: args.parts ++ [.leaf closing])])
      (.call (word.ident name) args.values) := by
  intro rest _
  have hlist : Parser.parenthesized "after function name" "after call arguments"
      Parser.expr (opening :: args.tokens ++ closing :: rest) =
        .ok args.values rest := Parser.parenthesized_complete
    Level.endsInList_assignment
    Parser.takesFront_expr hseparated hargs
    (fun arg harg => (hderives arg harg).not_rightParen) hopening hclosing rest
  have hid : Parser.ident (word :: opening :: (args.tokens ++ closing :: rest)) =
      .ok (word.ident name) (opening :: (args.tokens ++ closing :: rest)) :=
    Parser.ident_eq_ok_iff.mpr ⟨word, name, rfl, hword, rfl⟩
  have htokens : (Derivation.node (.expr .term) [.node .call
      (.leaf word :: .leaf opening :: args.parts ++ [.leaf closing])]).tokens ++ rest =
      word :: opening :: (args.tokens ++ closing :: rest) := by
    simp [Listing.tokens]
  rw [htokens, Parser.term, Parser.peek_bind]
  simp only [nextToken_cons, hword]
  rw [Parser.peekAt_bind]
  simp only [List.drop_succ_cons, List.drop_zero, nextToken_cons, hopening, if_true]
  rw [Parser.call, Parser.bind_of_ok hid]
  exact Parser.bind_of_ok hlist

theorem Parser.reads_term_loc {part : Derivation} {expr : Expr}
    (h : DerivesLoc part expr) :
    Parser.Reads (Parser.term Parser.expr) Level.term.Ends
      (.node (.expr .term) [part]) expr := by
  intro rest hrest
  have hend := hrest .term Level.term.mem_closer
  rw [Level.takes, Bool.or_eq_false_iff, beq_eq_false_iff_ne, beq_eq_false_iff_ne]
    at hend
  obtain ⟨hdot, hparen⟩ := hend
  have hloc := Parser.reads_loc h rest hdot
  simp only [Derivation.tokens_node, List.flatMap_cons, List.flatMap_nil,
    List.append_nil]
  cases h with
  | @access word name accesses hword haccesses =>
      -- No call starts here: a dot stands behind the name, or the end.
      have hsecond : (nextToken (((Derivation.node .loc (.leaf word ::
          accesses.flatMap FieldAccess.parts)).tokens ++ rest).drop 1)).kind ≠
          .punct .leftParen := by
        cases accesses with
        | nil => simpa using hparen
        | cons access accesses =>
            simp [FieldAccess.parts, (haccesses access (by simp)).1]
      rw [Parser.term, Parser.peek_bind]
      have hfirst : (nextToken ((Derivation.node .loc (.leaf word ::
          accesses.flatMap FieldAccess.parts)).tokens ++ rest)).kind = .ident name := by
        simpa using hword
      simp only [hfirst]
      rw [Parser.peekAt_bind, if_neg hsecond]
      exact hloc

theorem Level.not_equal_of_ends {tokens : List Token}
    (h : Level.assignment.Ends tokens) :
    (nextToken tokens).kind ≠ .punct .equal := by
  have htakes := h .assignment Level.assignment.mem_closer
  exact beq_eq_false_iff_ne.mp htakes

theorem Parser.reads_plain {part : Derivation} {expr : Expr}
    (hpart : Parser.Reads (Parser.disjunction Parser.expr) Level.disjunction.Ends
      part expr) :
    Parser.Reads Parser.expr Level.assignment.Ends
      (.node (.expr .assignment) [part]) expr := by
  intro rest hrest
  simp only [Derivation.tokens_node, List.flatMap_cons, List.flatMap_nil,
    List.append_nil]
  rw [Parser.expr_eq, Parser.assignment,
    Parser.bind_of_ok (hpart _ (Level.ends_operand hrest)), Parser.peek_bind,
    if_neg (Level.not_equal_of_ends hrest)]
  rfl

theorem Parser.reads_assign {target value : Derivation} {mark : Token}
    {lhs rhs : Expr}
    (htarget : Parser.Reads (Parser.disjunction Parser.expr) Level.disjunction.Ends
      target lhs)
    (hlocation : lhs.isLocation = true) (hmark : mark.kind = .punct .equal)
    (hvalue : Parser.Reads Parser.expr Level.assignment.Ends value rhs) :
    Parser.Reads Parser.expr Level.assignment.Ends
      (.node (.expr .assignment) [target, .leaf mark, value]) (.assign lhs rhs) := by
  intro rest hrest
  simp only [Derivation.tokens_node, List.flatMap_cons, Derivation.tokens_leaf,
    List.flatMap_nil, List.append_nil, List.append_assoc, List.cons_append,
    List.nil_append]
  rw [Parser.expr_eq, Parser.assignment,
    Parser.bind_of_ok (htarget _ (Level.ends_of_equal hmark _)), Parser.peek_bind,
    nextToken_cons, if_pos hmark, Parser.advance_bind,
    afterNext_cons (by simp [hmark]), if_pos hlocation]
  exact Parser.bind_of_ok (hvalue _ hrest)

/-- The parser of a level reads every phrase of the level, up to where it ends. -/
theorem DerivesExpr.reads {level : Level} {part : Derivation} {expr : Expr}
    (h : DerivesExpr level part expr) :
    Parser.Reads (Parser.ofLevel level) level.Ends part expr := by
  induction h with
  | plain _ ih => exact Parser.reads_plain ih
  | assign _ hlocation hmark _ ihtarget ihvalue =>
      exact Parser.reads_assign ihtarget hlocation hmark ihvalue
  | chain hlevel _ hmarks _ ihfirst ihothers =>
      rw [Parser.ofLevel_eq_chain hlevel]
      exact Parser.reads_chain hlevel (Parser.takesFront_ofLevel _) ihfirst hmarks
        ihothers
  | uncompared _ ih => exact Parser.reads_uncompared ih
  | compared _ hmark _ ihleft ihright =>
      exact Parser.reads_compared ihleft hmark ihright
  | marked hmark _ ih => exact Parser.reads_marked hmark ih
  | unmarked hpart ih => exact Parser.reads_unmarked hpart ih
  | @int token _ htoken | @str token _ htoken | @trueWord token htoken
    | @falseWord token htoken =>
      intro rest _
      simp only [Derivation.tokens_node, List.flatMap_cons, Derivation.tokens_leaf,
        List.flatMap_nil, List.append_nil, List.cons_append, List.nil_append]
      rw [Parser.ofLevel, Parser.term, Parser.peek_bind]
      simp only [nextToken_cons, htoken]
      rw [Parser.advance_bind, afterNext_cons (by simp [htoken])]
      rfl
  | paren hopening _ hclosing ih => exact Parser.reads_paren hopening ih hclosing
  | call hword hopening hseparated hargs hclosing ih =>
      exact Parser.reads_call hword hopening hseparated hargs ih hclosing
  | loc hpart => exact Parser.reads_term_loc hpart

end MiniLang

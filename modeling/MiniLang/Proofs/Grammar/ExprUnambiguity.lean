/-
Unambiguity of the grammar of expressions: what stands in front of a place where a
phrase can end has one derivation at most.
-/
import MiniLang.Proofs.Grammar.ExprCompleteness
import MiniLang.Proofs.Grammar.Parted

namespace MiniLang

theorem DerivesLoc.parted {part part' : Derivation} {loc loc' : Expr}
    (h : DerivesLoc part loc) (h' : DerivesLoc part' loc') :
    Parted (fun rest => (nextToken rest).kind ≠ .punct .dot) [part] [part'] := by
  cases h with
  | @access word name accesses hword haccesses =>
    cases h' with
    | @access word' name' accesses' hword' haccesses' =>
      have hcontinues : ∀ {accesses : List FieldAccess},
          (∀ access ∈ accesses, access.dot.kind = .punct .dot ∧
            access.word.kind = .ident access.name) →
          ∀ access ∈ accesses, Continues
            (fun rest => (nextToken rest).kind ≠ .punct .dot) (fun _ => True)
            access.parts := by
        intro accesses haccesses access haccess rest
        refine ⟨trivial, ?_⟩
        intro hdot
        exact hdot (haccesses access haccess).1
      refine Parted.node _ (Parted.leaf _ _ ?_)
      refine Parted.flatMap (fun _ _ => trivial) (hcontinues haccesses)
        (hcontinues haccesses') ?_
      intro access _ access' _
      exact Parted.leaf _ _ (Parted.leaf _ _ Parted.nil)

theorem DerivesExpr.head?_of_term {part : Derivation} {expr : Expr}
    (h : DerivesExpr .term part expr) : ∃ token, part.tokens.head? = some token := by
  obtain ⟨token, tokens, htokens, _⟩ := h.head_of_term
  exact ⟨token, by rw [htokens]; rfl⟩

/-- Whether a token is a term by itself. -/
def isLiteral : TokenKind → Bool
  | .int _ => true
  | .str _ => true
  | .keyword .true_ => true
  | .keyword .false_ => true
  | _ => false

/-- A term that starts with a literal is that literal. -/
theorem DerivesExpr.eq_of_literal {part : Derivation} {expr : Expr} {token : Token}
    (h : DerivesExpr .term part expr) (hhead : part.tokens.head? = some token)
    (hkind : isLiteral token.kind = true) :
    part = .node (.expr .term) [.leaf token] := by
  cases h with
  | chain hlevel => cases hlevel
  | int | str | trueWord | falseWord => simpa using hhead
  | paren hopening =>
      obtain rfl : _ = token := by simpa using hhead
      rw [hopening] at hkind
      exact absurd hkind (by decide)
  | call hword =>
      obtain rfl : _ = token := by simpa using hhead
      rw [hword] at hkind
      exact absurd hkind (by simp [isLiteral])
  | loc hpart =>
      obtain ⟨word, name, rest, htokens, hword⟩ := hpart.head
      obtain rfl : word = token := by simpa [htokens] using hhead
      rw [hword] at hkind
      exact absurd hkind (by simp [isLiteral])

/-- A term that starts with a parenthesis is an expression in parentheses. -/
theorem DerivesExpr.eq_of_leftParen {part : Derivation} {expr : Expr} {token : Token}
    (h : DerivesExpr .term part expr) (hhead : part.tokens.head? = some token)
    (hkind : token.kind = .punct .leftParen) :
    ∃ inner closing, part =
        .node (.expr .term) [.leaf token, inner, .leaf closing] ∧
      DerivesExpr .assignment inner expr ∧ closing.kind = .punct .rightParen := by
  cases h with
  | chain hlevel => cases hlevel
  | int htoken | str htoken | trueWord htoken | falseWord htoken =>
      obtain rfl : _ = token := by simpa using hhead
      rw [htoken] at hkind
      exact absurd hkind (by simp)
  | paren hopening hpart hclosing =>
      obtain rfl : _ = token := by simpa using hhead
      exact ⟨_, _, rfl, hpart, hclosing⟩
  | call hword =>
      obtain rfl : _ = token := by simpa using hhead
      rw [hword] at hkind
      exact absurd hkind (by simp)
  | loc hpart =>
      obtain ⟨word, name, rest, htokens, hword⟩ := hpart.head
      obtain rfl : word = token := by simpa [htokens] using hhead
      rw [hword] at hkind
      exact absurd hkind (by simp)

/-- A term that starts with a name is a call or a location. -/
theorem DerivesExpr.cases_of_ident {part : Derivation} {expr : Expr} {token : Token}
    {name : String} (h : DerivesExpr .term part expr)
    (hhead : part.tokens.head? = some token) (hkind : token.kind = .ident name) :
    (∃ opening closing, ∃ args : Listing Expr, part =
        .node (.expr .term) [.node .call
          (.leaf token :: .leaf opening :: args.parts ++ [.leaf closing])] ∧
      opening.kind = .punct .leftParen ∧ args.Separated ∧
      (∀ arg ∈ args.members, DerivesExpr .assignment arg.1 arg.2) ∧
      closing.kind = .punct .rightParen) ∨
    ∃ inner, part = .node (.expr .term) [inner] ∧ DerivesLoc inner expr := by
  cases h with
  | chain hlevel => cases hlevel
  | int htoken | str htoken | trueWord htoken | falseWord htoken =>
      obtain rfl : _ = token := by simpa using hhead
      rw [htoken] at hkind
      exact absurd hkind (by simp)
  | paren hopening =>
      obtain rfl : _ = token := by simpa using hhead
      rw [hopening] at hkind
      exact absurd hkind (by simp)
  | call hword hopening hseparated hargs hclosing =>
      obtain rfl : _ = token := by simpa using hhead
      exact .inl ⟨_, _, _, rfl, hopening, hseparated, hargs, hclosing⟩
  | loc hpart => exact .inr ⟨_, rfl, hpart⟩

theorem DerivesExpr.parted_of_literal {token : Token} {part' : Derivation}
    {expr' : Expr} (hkind : isLiteral token.kind = true)
    (h' : DerivesExpr .term part' expr') :
    Parted Level.term.Ends [.node (.expr .term) [.leaf token]] [part'] := by
  obtain ⟨token', hhead'⟩ := h'.head?_of_term
  by_cases hsame : token.kind = token'.kind
  · rw [h'.eq_of_literal hhead' (hsame ▸ hkind)]
    exact Parted.node _ (Parted.leaf _ _ Parted.nil)
  · exact Parted.of_heads token token' (by simp) (by simpa using hhead') hsame

/-- No location stands where a call stands: a parenthesis behind a name belongs to a
call. -/
theorem DerivesLoc.parted_call {word opening : Token} {more : List Derivation}
    {part : Derivation} {loc : Expr} (h : DerivesLoc part loc)
    (hopening : opening.kind = .punct .leftParen) :
    Parted Level.term.Ends [.node (.expr .term) [part]]
      [.node (.expr .term) [.node .call (.leaf word :: .leaf opening :: more)]] := by
  intro rest rest' hrest _ htokens
  exfalso
  cases h with
  | @access name _ accesses _ haccesses =>
      cases accesses with
      | nil =>
          simp only [List.flatMap_cons, List.flatMap_nil, Derivation.tokens_node,
            Derivation.tokens_leaf, List.append_nil, List.cons_append,
            List.nil_append, List.cons.injEq] at htokens
          have hends := hrest .term Level.term.mem_closer
          rw [htokens.2, nextToken_cons, hopening] at hends
          exact absurd hends (by decide)
      | cons access accesses =>
          simp only [FieldAccess.parts, List.flatMap_cons, List.flatMap_nil,
            Derivation.tokens_node, Derivation.tokens_leaf, List.append_nil,
            List.cons_append, List.nil_append, List.cons.injEq] at htokens
          have hdot := (haccesses access (by simp)).1
          rw [htokens.2.1, hopening] at hdot
          exact absurd hdot (by decide)

/-- An assignment is told from a phrase of the next closer level by its mark. -/
theorem Parted.of_assigned {target value plain : Derivation} {mark : Token}
    (h : Parted Level.disjunction.Ends [plain] [target])
    (hmark : mark.kind = .punct .equal) :
    Parted Level.assignment.Ends [plain] [target, .leaf mark, value] := by
  have hlonger : Parted Level.assignment.Ends [plain]
      ([target] ++ [.leaf mark, value]) :=
    .of_longer h (fun _ => Level.ends_operand)
      (fun rest => Level.ends_of_equal hmark _)
      fun rest hends => Level.not_equal_of_ends hends hmark
  exact hlonger

/-- A comparison is told from a phrase of the next closer level by its operator. -/
theorem Parted.of_compared {left right plain : Derivation} {mark : Token}
    {op : BinaryOp} (h : Parted Level.sum.Ends [plain] [left])
    (hmark : chooseRelational mark.kind = some op) :
    Parted Level.comparison.Ends [plain] [left, .leaf mark, right] := by
  have hgoesOn : ∀ rest, ¬ Level.comparison.Ends
      ([.leaf mark, right].flatMap Derivation.tokens ++ rest) := by
    intro rest hends
    have hnone := Level.not_relational_of_ends hends
    exact absurd (hmark.symm.trans hnone) (by simp)
  have hlonger : Parted Level.comparison.Ends [plain]
      ([left] ++ [.leaf mark, right]) :=
    .of_longer h (fun _ => Level.ends_operand)
      (fun rest => Level.ends_of_relational hmark _) hgoesOn
  exact hlonger

/-- No term starts with a unary operator. -/
theorem DerivesExpr.parted_of_mark {plain part : Derivation} {expr : Expr}
    {mark : Token} {op : UnaryOp} (h : DerivesExpr .term plain expr)
    (hmark : chooseUnary mark.kind = some op) :
    Parted Level.unary.Ends [plain] [.leaf mark, part] := by
  obtain ⟨token, tokens, htokens, hstart⟩ := h.head_of_term
  apply Parted.of_heads token mark (by simp [htokens]) (by simp)
  intro hkind
  rw [← hkind, chooseUnary_of_startsTerm hstart] at hmark
  exact absurd hmark (by simp)

section Chain

variable {level : Level} {choose : TokenKind → Option BinaryOp}

/-- A chain goes on with every operator of its level. -/
theorem Operand.continues (hlevel : level.operator? = some choose)
    {others : List Operand}
    (hmarks : ∀ other ∈ others, choose other.mark.kind = some other.op) :
    ∀ other ∈ others, Continues level.Ends level.operand.Ends other.parts := by
  intro other hother rest
  have hmark := hmarks other hother
  constructor
  · exact Level.ends_of_operator hlevel hmark _
  · intro hends
    have hnone := Level.not_operator_of_ends hlevel hends
    exact absurd (hmark.symm.trans hnone) (by simp)

/-- Operands in a row are parted if the operands are: a row goes on with every operator
of its level, and an operand with none. -/
theorem Parted.chain (hlevel : level.operator? = some choose)
    {first first' : Derivation} {others others' : List Operand}
    (hfirst : Parted level.operand.Ends [first] [first'])
    (hmarks : ∀ other ∈ others, choose other.mark.kind = some other.op)
    (hmarks' : ∀ other ∈ others', choose other.mark.kind = some other.op)
    (hothers : ∀ other ∈ others, ∀ other' ∈ others',
      Parted level.operand.Ends [other.part] [other'.part]) :
    Parted level.Ends (first :: others.flatMap Operand.parts)
      (first' :: others'.flatMap Operand.parts) := by
  have hcontinues := Operand.continues hlevel hmarks
  have hcontinues' := Operand.continues hlevel hmarks'
  have hrest : Parted level.Ends (others.flatMap Operand.parts)
      (others'.flatMap Operand.parts) := by
    apply Parted.flatMap (fun _ => Level.ends_operand) hcontinues hcontinues'
    intro other hother other' hother'
    exact Parted.leaf _ _ (hothers other hother other' hother')
  apply Parted.cons hfirst hrest
  · exact fun _ => ends_of_continues (fun _ => Level.ends_operand) hcontinues
  · exact fun _ => ends_of_continues (fun _ => Level.ends_operand) hcontinues'

end Chain

theorem DerivesExpr.parted_of_paren {opening closing : Token} {part part' : Derivation}
    {expr' : Expr} (hopening : opening.kind = .punct .leftParen)
    (hclosing : closing.kind = .punct .rightParen)
    (hpart : ∀ inner' inner, DerivesExpr .assignment inner' inner →
      Parted Level.assignment.Ends [part] [inner'])
    (h' : DerivesExpr .term part' expr') :
    Parted Level.term.Ends [.node (.expr .term) [.leaf opening, part, .leaf closing]]
      [part'] := by
  obtain ⟨token', hhead'⟩ := h'.head?_of_term
  by_cases hkind : opening.kind = token'.kind
  · obtain ⟨inner', closing', rfl, hinner', hclosing'⟩ :=
      h'.eq_of_leftParen hhead' (hkind.symm.trans hopening)
    refine Parted.node _ (Parted.leaf _ _ (Parted.cons (hpart _ _ hinner')
      (Parted.leaf _ _ Parted.nil) ?_ ?_))
    · exact fun rest _ => Level.endsInList_assignment.closing _ rest hclosing
    · exact fun rest _ => Level.endsInList_assignment.closing _ rest hclosing'
  · exact Parted.of_heads opening token' (by simp) (by simpa using hhead') hkind

theorem DerivesExpr.parted_of_call {word opening closing : Token} {name : String}
    {args : Listing Expr} {part' : Derivation} {expr' : Expr}
    (hword : word.kind = .ident name) (hopening : opening.kind = .punct .leftParen)
    (hseparated : args.Separated)
    (hargs : ∀ arg ∈ args.members, DerivesExpr .assignment arg.1 arg.2)
    (hclosing : closing.kind = .punct .rightParen)
    (hparts : ∀ arg ∈ args.members, ∀ arg' expr, DerivesExpr .assignment arg' expr →
      Parted Level.assignment.Ends [arg.1] [arg'])
    (h' : DerivesExpr .term part' expr') :
    Parted Level.term.Ends
      [.node (.expr .term) [.node .call
        (.leaf word :: .leaf opening :: args.parts ++ [.leaf closing])]] [part'] := by
  obtain ⟨token', hhead'⟩ := h'.head?_of_term
  by_cases hkind : word.kind = token'.kind
  · rcases h'.cases_of_ident hhead' (hkind.symm.trans hword) with
      ⟨opening', closing', args', rfl, _, hseparated', hargs', hclosing'⟩ |
      ⟨inner', rfl, hloc'⟩
    · apply Parted.node _ (Parted.node _ (Parted.leaf _ _ (Parted.leaf _ _ ?_)))
      exact Parted.listing Level.endsInList_assignment hseparated hseparated'
        (fun arg harg => (hargs arg harg).not_rightParen)
        (fun arg harg => (hargs' arg harg).not_rightParen)
        (fun arg harg arg' harg' => hparts arg harg _ _ (hargs' arg' harg'))
        hclosing hclosing' Parted.nil
    · exact (hloc'.parted_call hopening).symm
  · exact Parted.of_heads word token' (by simp) (by simpa using hhead') hkind

theorem DerivesLoc.parted_term {part part' : Derivation} {loc expr' : Expr}
    (h : DerivesLoc part loc) (h' : DerivesExpr .term part' expr') :
    Parted Level.term.Ends [.node (.expr .term) [part]] [part'] := by
  obtain ⟨token', hhead'⟩ := h'.head?_of_term
  obtain ⟨word, name, tokens, htokens, hword⟩ := h.head
  by_cases hkind : word.kind = token'.kind
  · rcases h'.cases_of_ident hhead' (hkind.symm.trans hword) with
      ⟨opening', closing', args', rfl, hopening', _⟩ | ⟨inner', rfl, hloc'⟩
    · exact h.parted_call hopening'
    · apply Parted.node _ ((h.parted hloc').mono _)
      intro rest hrest hdot
      have hends := hrest .term Level.term.mem_closer
      rw [hdot] at hends
      exact absurd hends (by decide)
  · exact Parted.of_heads word token' (by simp [htokens]) (by simpa using hhead')
      hkind

/-- A phrase of an expression has one derivation at most, up to where its level
ends. -/
theorem DerivesExpr.parted {level : Level} {part part' : Derivation} {expr expr' : Expr}
    (h : DerivesExpr level part expr) (h' : DerivesExpr level part' expr') :
    Parted level.Ends [part] [part'] := by
  induction h generalizing part' expr' with
  | plain hpart ih =>
      cases h' with
      | chain hlevel => cases hlevel
      | plain hpart' => exact Parted.node _ ((ih hpart').mono fun _ => Level.ends_operand)
      | assign htarget' _ hmark' _ =>
          exact Parted.node _ ((ih htarget').of_assigned hmark')
  | assign htarget _ hmark hvalue ihtarget ihvalue =>
      cases h' with
      | chain hlevel => cases hlevel
      | plain hpart' =>
          exact Parted.node _ ((ihtarget hpart').symm.of_assigned hmark).symm
      | assign htarget' _ hmark' hvalue' =>
          apply Parted.node _ (Parted.cons (ihtarget htarget')
            (Parted.leaf _ _ (ihvalue hvalue')) ?_ ?_)
          · exact fun _ _ => Level.ends_of_equal hmark _
          · exact fun _ _ => Level.ends_of_equal hmark' _
  | chain hlevel hfirst hmarks hothers ihfirst ihothers =>
      cases h' with
      | chain hlevel' hfirst' hmarks' hothers' =>
          obtain rfl := Option.some.inj (hlevel.symm.trans hlevel')
          apply Parted.node _ (Parted.chain hlevel (ihfirst hfirst') hmarks hmarks' _)
          intro other hother other' hother'
          exact ihothers other hother (hothers' other' hother')
      | _ => cases hlevel
  | uncompared hpart ih =>
      cases h' with
      | chain hlevel => cases hlevel
      | uncompared hpart' =>
          exact Parted.node _ ((ih hpart').mono fun _ => Level.ends_operand)
      | compared hleft' hmark' _ =>
          exact Parted.node _ ((ih hleft').of_compared hmark')
  | compared hleft hmark hright ihleft ihright =>
      cases h' with
      | chain hlevel => cases hlevel
      | uncompared hpart' =>
          exact Parted.node _ ((ihleft hpart').symm.of_compared hmark).symm
      | compared hleft' hmark' hright' =>
          apply Parted.node _ (Parted.cons (ihleft hleft') (Parted.leaf _ _
            ((ihright hright').mono fun _ => Level.ends_operand)) ?_ ?_)
          · exact fun _ _ => Level.ends_of_relational hmark _
          · exact fun _ _ => Level.ends_of_relational hmark' _
  | marked hmark hpart ih =>
      cases h' with
      | chain hlevel => cases hlevel
      | marked hmark' hpart' => exact Parted.node _ (Parted.leaf _ _ (ih hpart'))
      | unmarked hpart' => exact Parted.node _ (hpart'.parted_of_mark hmark).symm
  | unmarked hpart ih =>
      cases h' with
      | chain hlevel => cases hlevel
      | marked hmark' hpart' => exact Parted.node _ (hpart.parted_of_mark hmark')
      | unmarked hpart' =>
          exact Parted.node _ ((ih hpart').mono fun _ => Level.ends_operand)
  | @int token _ htoken | @str token _ htoken | @trueWord token htoken
    | @falseWord token htoken =>
      exact DerivesExpr.parted_of_literal (by rw [htoken]; rfl) h'
  | paren hopening hpart hclosing ih =>
      exact DerivesExpr.parted_of_paren hopening hclosing (fun _ _ => ih) h'
  | call hword hopening hseparated hargs hclosing ih =>
      exact DerivesExpr.parted_of_call hword hopening hseparated hargs hclosing
        (fun arg harg _ _ => ih arg harg) h'
  | loc hpart => exact hpart.parted_term h'

end MiniLang

/-
Reading printed expressions. The tokens of a printed expression are derived as an
expression again, and it differs in its places only.
-/
import MiniLang.Proofs.Print.Dots
import MiniLang.Tree.Relabel

namespace MiniLang

variable {α : Type}

/-- Whether tokens of the given kinds are derived as `value`, but for its places. -/
def Rereads (derives : Derivation → α → Prop) (unplaced : α → α)
    (kinds : List TokenKind) (value : α) : Prop :=
  ∀ tokens : List Token, tokens.map Token.kind = kinds →
    ∃ part other, derives part other ∧ part.tokens = tokens ∧
      unplaced other = unplaced value

/-- Whether tokens are derived as an expression of the given level. -/
def Derivable (level : Level) (tokens : List Token) (expr : Expr) : Prop :=
  ∃ part, DerivesExpr level part expr ∧ part.tokens = tokens

/-- What is derived on the next closer level is derived on a level. -/
theorem Derivable.loosen {tokens : List Token} {expr : Expr} (level : Level)
    (h : Derivable level.operand tokens expr) : Derivable level tokens expr := by
  obtain ⟨part, hpart, htokens⟩ := h
  have hchain : ∀ choose, level.operator? = some choose →
      Derivable level tokens expr := by
    intro choose hlevel
    have hmarks : ∀ other ∈ ([] : List Operand),
        choose other.mark.kind = some other.op := List.forall_mem_nil _
    exact ⟨_, .chain hlevel hpart hmarks (List.forall_mem_nil _), by simp [htokens]⟩
  cases level with
  | assignment => exact ⟨_, .plain hpart, by simp [htokens]⟩
  | disjunction | conjunction | sum | product => exact hchain _ rfl
  | comparison => exact ⟨_, .uncompared hpart, by simp [htokens]⟩
  | unary => exact ⟨_, .unmarked hpart, by simp [htokens]⟩
  | term => exact ⟨part, hpart, htokens⟩

/-- What is derived as a term is derived as an expression of every level. -/
theorem Derivable.of_term {tokens : List Token} {expr : Expr}
    (h : Derivable .term tokens expr) (level : Level) :
    Derivable level tokens expr := by
  have hunary : Derivable .unary tokens expr := .loosen .unary h
  have hproduct : Derivable .product tokens expr := .loosen .product hunary
  have hsum : Derivable .sum tokens expr := .loosen .sum hproduct
  have hcomparison : Derivable .comparison tokens expr := .loosen .comparison hsum
  have hconjunction : Derivable .conjunction tokens expr :=
    .loosen .conjunction hcomparison
  have hdisjunction : Derivable .disjunction tokens expr :=
    .loosen .disjunction hconjunction
  have hassignment : Derivable .assignment tokens expr :=
    .loosen .assignment hdisjunction
  cases level <;> assumption

/-- What is derived as an expression of some level is derived as an expression. -/
theorem Derivable.to_assignment {tokens : List Token} {expr : Expr} {level : Level}
    (h : Derivable level tokens expr) : Derivable .assignment tokens expr := by
  have hdisjunction (h : Derivable .disjunction tokens expr) :
      Derivable .assignment tokens expr := .loosen .assignment h
  have hconjunction (h : Derivable .conjunction tokens expr) :
      Derivable .assignment tokens expr := hdisjunction (.loosen .disjunction h)
  have hcomparison (h : Derivable .comparison tokens expr) :
      Derivable .assignment tokens expr := hconjunction (.loosen .conjunction h)
  have hsum (h : Derivable .sum tokens expr) :
      Derivable .assignment tokens expr := hcomparison (.loosen .comparison h)
  have hproduct (h : Derivable .product tokens expr) :
      Derivable .assignment tokens expr := hsum (.loosen .sum h)
  have hunary (h : Derivable .unary tokens expr) :
      Derivable .assignment tokens expr := hproduct (.loosen .product h)
  cases level with
  | assignment => exact h
  | disjunction => exact hdisjunction h
  | conjunction => exact hconjunction h
  | comparison => exact hcomparison h
  | sum => exact hsum h
  | product => exact hproduct h
  | unary => exact hunary h
  | term => exact h.of_term .assignment

theorem Derivable.chained {level : Level} {choose : TokenKind → Option BinaryOp}
    (hlevel : level.operator? = some choose) {left right : List Token} {mark : Token}
    {op : BinaryOp} (hmark : choose mark.kind = some op) {lhs rhs : Expr}
    (hleft : Derivable .term left lhs) (hright : Derivable .term right rhs) :
    Derivable level (left ++ mark :: right) (.binary op lhs rhs) := by
  obtain ⟨leftPart, hleftPart, rfl⟩ := hleft.of_term level.operand
  obtain ⟨rightPart, hrightPart, rfl⟩ := hright.of_term level.operand
  have hmarks : ∀ other ∈ [Operand.mk mark op rightPart rhs],
      choose other.mark.kind = some other.op := by simpa using hmark
  have hoperands : ∀ other ∈ [Operand.mk mark op rightPart rhs],
      DerivesExpr level.operand other.part other.value := by simpa using hrightPart
  exact ⟨_, .chain hlevel hleftPart hmarks hoperands, by simp [Operand.parts]⟩

theorem Derivable.compared {left right : List Token} {mark : Token}
    {op : BinaryOp} (hmark : chooseRelational mark.kind = some op) {lhs rhs : Expr}
    (hleft : Derivable .term left lhs) (hright : Derivable .term right rhs) :
    Derivable .comparison (left ++ mark :: right) (.binary op lhs rhs) := by
  obtain ⟨leftPart, hleftPart, rfl⟩ := hleft.of_term .sum
  obtain ⟨rightPart, hrightPart, rfl⟩ := hright.of_term .sum
  exact ⟨_, .compared hleftPart hmark hrightPart, by simp⟩

theorem BinaryOp.choose_punct (op : BinaryOp) :
    chooseRelational (.punct op.punct) = some op ∨
      ∃ level choose, Level.operator? level = some choose ∧
        choose (.punct op.punct) = some op := by
  cases op with
  | or => exact .inr ⟨.disjunction, _, rfl, rfl⟩
  | and => exact .inr ⟨.conjunction, _, rfl, rfl⟩
  | plus | minus => exact .inr ⟨.sum, _, rfl, rfl⟩
  | times | divide => exact .inr ⟨.product, _, rfl, rfl⟩
  | _ => exact .inl rfl

/-- An operator between two terms is an expression. -/
theorem Derivable.binary {left right : List Token} {mark : Token} {op : BinaryOp}
    (hmark : mark.kind = .punct op.punct) {lhs rhs : Expr}
    (hleft : Derivable .term left lhs) (hright : Derivable .term right rhs) :
    Derivable .assignment (left ++ mark :: right) (.binary op lhs rhs) := by
  rcases op.choose_punct with hop | ⟨level, choose, hlevel, hop⟩
  · rw [← hmark] at hop
    exact (Derivable.compared hop hleft hright).to_assignment
  · rw [← hmark] at hop
    exact (Derivable.chained hlevel hop hleft hright).to_assignment

/-- An operator in front of a term is an expression. -/
theorem Derivable.unary {mark : Token} {op : UnaryOp} {tokens : List Token}
    (hmark : mark.kind = .punct op.punct) {operand : Expr}
    (h : Derivable .term tokens operand) :
    Derivable .assignment (mark :: tokens) (.unary op operand) := by
  obtain ⟨part, hpart, rfl⟩ := h.of_term .unary
  have hop : chooseUnary mark.kind = some op := by
    rw [hmark]
    cases op <;> rfl
  have hmarked : Derivable .unary (mark :: part.tokens) (.unary op operand) :=
    ⟨_, .marked hop hpart, by simp⟩
  exact hmarked.to_assignment

theorem Derivable.assign {left right : List Token} {mark : Token}
    (hmark : mark.kind = .punct .equal) {lhs rhs : Expr}
    (hlocation : lhs.isLocation = true) (hleft : Derivable .term left lhs)
    (hright : Derivable .term right rhs) :
    Derivable .assignment (left ++ mark :: right) (.assign lhs rhs) := by
  obtain ⟨leftPart, hleftPart, rfl⟩ := hleft.of_term .disjunction
  obtain ⟨rightPart, hrightPart, rfl⟩ := hright.of_term .assignment
  exact ⟨_, .assign hleftPart hlocation hmark hrightPart, by simp⟩

theorem Derivable.paren {opening closing : Token} {tokens : List Token} {expr : Expr}
    (hopening : opening.kind = .punct .leftParen)
    (hclosing : closing.kind = .punct .rightParen)
    (h : Derivable .assignment tokens expr) :
    Derivable .term (opening :: tokens ++ [closing]) expr := by
  obtain ⟨part, hpart, rfl⟩ := h
  exact ⟨_, .paren hopening hpart hclosing, by simp⟩

/-- Whether the tokens of a printed expression are derived as the expression. -/
structure Expr.Rereads (expr : Expr) : Prop where
  alone : MiniLang.Rereads (DerivesExpr .assignment) Expr.unplaced
    (kindsOf (expr.items false)) expr
  nested : MiniLang.Rereads (DerivesExpr .term) Expr.unplaced
    (kindsOf (expr.items true)) expr

/-- What is derived from other tokens of a name is the name, but for its place. -/
theorem Ident.unplaced_ident {id : Ident} (h : id.symbol = none) (word : Token) :
    (word.ident id.name).unplaced = id.unplaced := by
  rw [Ident.unplaced, Ident.unplaced, Token.ident, h]

theorem Rereads.widen {items : List PrintItem} {expr : Expr}
    (h : Rereads (DerivesExpr .term) Expr.unplaced (kindsOf items) expr) :
    Rereads (DerivesExpr .assignment) Expr.unplaced (kindsOf items) expr := by
  intro tokens htokens
  obtain ⟨part, other, hpart, hsame, hvalue⟩ := h tokens htokens
  obtain ⟨wider, hwider, hwiderTokens⟩ :=
    Derivable.of_term ⟨part, hpart, hsame⟩ .assignment
  exact ⟨wider, other, hwider, hwiderTokens, hvalue⟩

theorem Expr.Rereads.inside {expr : Expr} (h : expr.Rereads) :
    MiniLang.Rereads (DerivesExpr .assignment) Expr.unplaced
      (kindsOf (expr.items true)) expr := h.nested.widen

theorem Expr.Rereads.of_term {expr : Expr} (hitems : expr.items false = expr.items true)
    (h : MiniLang.Rereads (DerivesExpr .term) Expr.unplaced
      (kindsOf (expr.items true)) expr) : expr.Rereads where
  alone := hitems ▸ h.widen
  nested := h

theorem Rereads.parens {items : List PrintItem} {expr : Expr}
    (h : Rereads (DerivesExpr .assignment) Expr.unplaced (kindsOf items) expr) :
    Rereads (DerivesExpr .term) Expr.unplaced (kindsOf (printParens items)) expr := by
  intro tokens htokens
  simp only [kindsOf_parens, List.cons_append, List.map_eq_cons_iff,
    List.map_eq_append_iff, List.map_eq_nil_iff] at htokens
  obtain ⟨opening, _, rfl, hopening, inner, _, rfl, hinner, closing, _, rfl, hclosing,
    rfl⟩ := htokens
  obtain ⟨part, other, hpart, hsame, hvalue⟩ := h inner hinner
  obtain ⟨wider, hwider, hwiderTokens⟩ :=
    Derivable.paren hopening hclosing ⟨part, hpart, hsame⟩
  exact ⟨wider, other, hwider, hwiderTokens, hvalue⟩

theorem Expr.isLocation_of_unplaced_eq {expr other : Expr}
    (h : other.unplaced = expr.unplaced) (hlocation : expr.isLocation = true) :
    other.isLocation = true := by
  rw [← Expr.isLocation_unplaced, h, Expr.isLocation_unplaced, hlocation]

theorem Expr.Rereads.binary {op : BinaryOp} {lhs rhs : Expr} (hlhs : lhs.Rereads)
    (hrhs : rhs.Rereads) : (Expr.binary op lhs rhs).Rereads := by
  refine .of_term rfl (.parens ?_)
  intro tokens htokens
  simp only [kindsOf_append, kindsOf_space, kindsOf_mark, List.map_eq_cons_iff,
    List.map_eq_append_iff] at htokens
  obtain ⟨left, _, rfl, hleft, mark, right, rfl, hmark, hright⟩ := htokens
  obtain ⟨leftPart, lhs', hleftPart, rfl, hlhs'⟩ := hlhs.nested left hleft
  obtain ⟨rightPart, rhs', hrightPart, rfl, hrhs'⟩ := hrhs.nested right hright
  obtain ⟨part, hpart, hsame⟩ :=
    Derivable.binary hmark ⟨leftPart, hleftPart, rfl⟩ ⟨rightPart, hrightPart, rfl⟩
  refine ⟨part, .binary op lhs' rhs', hpart, hsame, ?_⟩
  simp only [Expr.unplaced, Expr.relabel] at hlhs' hrhs' ⊢
  rw [hlhs', hrhs']

theorem Expr.Rereads.unary {op : UnaryOp} {operand : Expr} (h : operand.Rereads) :
    (Expr.unary op operand).Rereads := by
  refine .of_term rfl (.parens ?_)
  intro tokens htokens
  simp only [kindsOf_mark, List.map_eq_cons_iff] at htokens
  obtain ⟨mark, inner, rfl, hmark, hinner⟩ := htokens
  obtain ⟨innerPart, operand', hinnerPart, rfl, hoperand⟩ := h.nested inner hinner
  obtain ⟨part, hpart, hsame⟩ := Derivable.unary hmark ⟨innerPart, hinnerPart, rfl⟩
  refine ⟨part, .unary op operand', hpart, hsame, ?_⟩
  simp only [Expr.unplaced, Expr.relabel] at hoperand ⊢
  rw [hoperand]

theorem Expr.Rereads.assign {lhs rhs : Expr} (hlocation : lhs.isLocation = true)
    (hlhs : lhs.Rereads) (hrhs : rhs.Rereads) : (Expr.assign lhs rhs).Rereads := by
  have halone : MiniLang.Rereads (DerivesExpr .assignment) Expr.unplaced
      (kindsOf ((Expr.assign lhs rhs).items false)) (.assign lhs rhs) := by
    intro tokens htokens
    simp only [Expr.items, Bool.false_eq_true, if_false, kindsOf_append, kindsOf_space,
      kindsOf_mark, List.map_eq_cons_iff, List.map_eq_append_iff] at htokens
    obtain ⟨left, _, rfl, hleft, mark, right, rfl, hmark, hright⟩ := htokens
    obtain ⟨leftPart, lhs', hleftPart, rfl, hlhs'⟩ := hlhs.nested left hleft
    obtain ⟨rightPart, rhs', hrightPart, rfl, hrhs'⟩ := hrhs.nested right hright
    obtain ⟨part, hpart, hsame⟩ := Derivable.assign hmark
      (Expr.isLocation_of_unplaced_eq hlhs' hlocation) ⟨leftPart, hleftPart, rfl⟩
      ⟨rightPart, hrightPart, rfl⟩
    refine ⟨part, .assign lhs' rhs', hpart, hsame, ?_⟩
    simp only [Expr.unplaced, Expr.relabel] at hlhs' hrhs' ⊢
    rw [hlhs', hrhs']
  exact ⟨halone, halone.parens⟩

theorem Expr.Rereads.joinOperands {first : Expr} {others : List Operand}
    (hfirst : first.Rereads) (hothers : ∀ other ∈ others, other.value.Rereads) :
    (joinOperands first others).Rereads := by
  induction others generalizing first with
  | nil => exact hfirst
  | cons other others ih =>
      exact ih (hfirst.binary (hothers other (by simp)))
        fun more hmore => hothers more (by simp [hmore])

section Lists

variable {derives : Derivation → α → Prop} {unplaced : α → α}
  {itemsOf : α → List PrintItem} {values : List α}
  (h : ∀ value ∈ values, Rereads derives unplaced (kindsOf (itemsOf value)) value)

include h

/-- Trees that are printed behind each other are read back one by one. -/
theorem Rereads.items {tokens : List Token}
    (htokens : tokens.map Token.kind = values.flatMap fun value =>
      kindsOf (itemsOf value)) :
    ∃ parts : List (Derivation × α), (∀ part ∈ parts, derives part.1 part.2) ∧
      (parts.map Prod.fst).flatMap Derivation.tokens = tokens ∧
      (parts.map Prod.snd).map unplaced = values.map unplaced := by
  induction values generalizing tokens with
  | nil =>
      obtain rfl : tokens = [] := by simpa using htokens
      exact ⟨[], List.forall_mem_nil _, rfl, rfl⟩
  | cons value rest ih =>
      rw [List.flatMap_cons, List.map_eq_append_iff] at htokens
      obtain ⟨front, back, rfl, hfront, hback⟩ := htokens
      obtain ⟨part, other, hpart, rfl, hvalue⟩ := h value (by simp) front hfront
      obtain ⟨parts, hparts, rfl, hvalues⟩ :=
        ih (fun other hother => h other (by simp [hother])) hback
      refine ⟨(part, other) :: parts, ?_, by simp, by simp [hvalue, hvalues]⟩
      exact List.forall_mem_cons.mpr ⟨hpart, hparts⟩

/-- The items of a printed list behind the first one are derived, each with a comma in
front of it. -/
theorem Rereads.others {tokens : List Token}
    (htokens : tokens.map Token.kind = kindsOf (printOthers (values.map itemsOf))) :
    ∃ others : List (Member α), (∀ other ∈ others, other.comma.kind = .punct .comma) ∧
      (∀ other ∈ others, derives other.part other.value) ∧
      (others.flatMap fun other => other.comma :: other.part.tokens) = tokens ∧
      (others.map Member.value).map unplaced = values.map unplaced := by
  rw [kindsOf_others, List.flatMap_map] at htokens
  induction values generalizing tokens with
  | nil =>
      obtain rfl : tokens = [] := by simpa using htokens
      exact ⟨[], List.forall_mem_nil _, List.forall_mem_nil _, rfl, rfl⟩
  | cons value rest ih =>
      simp only [List.flatMap_cons, List.cons_append, List.map_eq_cons_iff,
        List.map_eq_append_iff] at htokens
      obtain ⟨comma, _, rfl, hcomma, front, back, rfl, hfront, hback⟩ := htokens
      obtain ⟨part, other, hpart, rfl, hvalue⟩ := h value (by simp) front hfront
      obtain ⟨others, hcommas, hothers, rfl, hvalues⟩ :=
        ih (fun other hother => h other (by simp [hother])) hback
      refine ⟨⟨comma, part, other⟩ :: others, ?_, ?_, by simp, by simp [hvalue, hvalues]⟩
      · exact List.forall_mem_cons.mpr ⟨hcomma, hcommas⟩
      · exact List.forall_mem_cons.mpr ⟨hpart, hothers⟩

/-- Trees that are printed with commas between them are read back as a list. -/
theorem Rereads.listing {tokens : List Token}
    (htokens : tokens.map Token.kind = kindsOf (printSeparated (values.map itemsOf))) :
    ∃ listing : Listing α, listing.Separated ∧
      (∀ member ∈ listing.members, derives member.1 member.2) ∧
      listing.parts.flatMap Derivation.tokens = tokens ∧
      listing.values.map unplaced = values.map unplaced := by
  cases values with
  | nil =>
      obtain rfl : tokens = [] := by simpa [printSeparated] using htokens
      exact ⟨.empty, trivial, List.forall_mem_nil _, rfl, rfl⟩
  | cons value rest =>
      rw [List.map_cons, printSeparated_cons, kindsOf_append,
        List.map_eq_append_iff] at htokens
      obtain ⟨front, back, rfl, hfront, hback⟩ := htokens
      obtain ⟨part, other, hpart, rfl, hvalue⟩ := h value (by simp) front hfront
      obtain ⟨others, hcommas, hothers, rfl, hvalues⟩ :=
        Rereads.others (fun other hother => h other (by simp [hother])) hback
      refine ⟨.items part other others, hcommas, ?_, ?_, ?_⟩
      · simpa [Listing.members, hpart] using hothers
      · simp [Listing.parts, List.flatMap_assoc]
      · simp [Listing.values, hvalue, hvalues]

end Lists

theorem Expr.Rereads.call {callee : Ident} {args : List Expr}
    (hcallee : callee.symbol = none) (hargs : ∀ arg ∈ args, arg.Rereads) :
    (Expr.call callee args).Rereads := by
  refine .of_term rfl ?_
  intro tokens htokens
  simp only [Expr.items, Expr.itemsOfArgs_eq, kindsOf_append, kindsOf_ident,
    kindsOf_parens, List.cons_append, List.nil_append, List.map_eq_cons_iff,
    List.map_eq_append_iff, List.map_eq_nil_iff] at htokens
  obtain ⟨word, _, rfl, hword, opening, _, rfl, hopening, inner, _, rfl, hinner,
    closing, _, rfl, hclosing, rfl⟩ := htokens
  obtain ⟨listing, hseparated, hmembers, rfl, hvalues⟩ :=
    MiniLang.Rereads.listing (fun arg harg => (hargs arg harg).inside) hinner
  refine ⟨_, _, .call hword hopening hseparated hmembers hclosing, by simp, ?_⟩
  simp only [Expr.unplaced, Expr.relabel, Expr.relabelList_eq] at hvalues ⊢
  rw [hvalues, Ident.unplaced_ident hcallee]

theorem Expr.Rereads.literal {kind : TokenKind} {expr : Expr}
    (hitems : ∀ nested, expr.items nested = [.token kind])
    (h : ∀ token : Token, token.kind = kind → ∃ other,
      DerivesExpr .term (.node (.expr .term) [.leaf token]) other ∧
        other.unplaced = expr.unplaced) : expr.Rereads := by
  refine .of_term ((hitems false).trans (hitems true).symm) ?_
  intro tokens htokens
  rw [hitems, kindsOf_token, kindsOf_nil, List.map_eq_cons_iff] at htokens
  obtain ⟨token, rest, rfl, hkind, hrest⟩ := htokens
  obtain rfl := List.map_eq_nil_iff.mp hrest
  obtain ⟨other, hother, hvalue⟩ := h token hkind
  exact ⟨_, other, hother, by simp, hvalue⟩

theorem DerivesLoc.eq_name {part : Derivation} {loc : Expr} (h : DerivesLoc part loc)
    (hdot : loc.hasDot = false) : ∃ id : Ident, id.symbol = none ∧ loc = .name id := by
  cases h with
  | @access word name accesses _ _ =>
      refine ⟨word.ident name, rfl, ?_⟩
      rcases List.eq_nil_or_concat accesses with rfl | ⟨front, last, rfl⟩
      · rfl
      · rw [List.concat_eq_append, List.map_append, List.foldl_append] at hdot
        exact absurd hdot nofun

/-- A location without a dot is read back as a location. -/
theorem DerivesLoc.rereads {part : Derivation} {loc : Expr} (h : DerivesLoc part loc)
    (hdot : loc.hasDot = false) :
    Rereads DerivesLoc Expr.unplaced (kindsOf (loc.items true)) loc := by
  obtain ⟨id, hid, rfl⟩ := h.eq_name hdot
  intro tokens htokens
  simp only [Expr.items, kindsOf_ident, List.map_eq_cons_iff,
    List.map_eq_nil_iff] at htokens
  obtain ⟨word, _, rfl, hword, rfl⟩ := htokens
  have hnone : ∀ access ∈ ([] : List FieldAccess), access.dot.kind = .punct .dot ∧
      access.word.kind = .ident access.name := by simp
  refine ⟨_, _, .access hword hnone, by simp, ?_⟩
  simp [Expr.unplaced, Expr.relabel, Ident.unplaced_ident hid]

theorem Expr.Rereads.loc {part : Derivation} {loc : Expr} (h : DerivesLoc part loc)
    (hdot : loc.hasDot = false) : loc.Rereads := by
  have hitems : loc.items false = loc.items true := by
    obtain ⟨id, _, rfl⟩ := h.eq_name hdot
    rfl
  refine .of_term hitems ?_
  intro tokens htokens
  obtain ⟨locPart, other, hother, rfl, hvalue⟩ := h.rereads hdot tokens htokens
  exact ⟨_, other, .loc hother, by simp, hvalue⟩

theorem Listing.exists_member {listing : Listing α} {value : α}
    (h : value ∈ listing.values) : ∃ member ∈ listing.members, member.2 = value := by
  cases listing with
  | empty => exact absurd h List.not_mem_nil
  | items part first others =>
      rcases List.mem_cons.mp h with rfl | hrest
      · exact ⟨(part, value), by simp [Listing.members], rfl⟩
      · obtain ⟨other, hother, rfl⟩ := List.mem_map.mp hrest
        exact ⟨(other.part, other.value),
          List.mem_cons_of_mem _ (List.mem_map_of_mem hother), rfl⟩

theorem hasDot_joinOperands {first : Expr} {others : List Operand}
    (h : (joinOperands first others).hasDot = false) :
    first.hasDot = false ∧ ∀ other ∈ others, other.value.hasDot = false := by
  induction others generalizing first with
  | nil => exact ⟨h, List.forall_mem_nil _⟩
  | cons other others ih =>
      have hmore : (joinOperands (.binary other.op first other.value) others).hasDot =
          false := h
      obtain ⟨hfirst, hothers⟩ := ih hmore
      obtain ⟨hlhs, hrhs⟩ := Bool.or_eq_false_iff.mp hfirst
      exact ⟨hlhs, List.forall_mem_cons.mpr ⟨hrhs, hothers⟩⟩

/-- A printed expression without a field access is read back. -/
theorem DerivesExpr.rereads {level : Level} {part : Derivation} {expr : Expr}
    (h : DerivesExpr level part expr) (hdot : expr.hasDot = false) : expr.Rereads := by
  induction h with
  | plain _ ih | uncompared _ ih | unmarked _ ih | paren _ _ _ ih => exact ih hdot
  | assign _ hlocation _ _ ihtarget ihvalue =>
      obtain ⟨htarget, hvalue⟩ := Bool.or_eq_false_iff.mp hdot
      exact .assign hlocation (ihtarget htarget) (ihvalue hvalue)
  | chain _ _ _ _ ihfirst ihothers =>
      obtain ⟨hfirst, hothers⟩ := hasDot_joinOperands hdot
      exact (ihfirst hfirst).joinOperands
        fun other hother => ihothers other hother (hothers other hother)
  | compared _ _ _ ihleft ihright =>
      obtain ⟨hleft, hright⟩ := Bool.or_eq_false_iff.mp hdot
      exact (ihleft hleft).binary (ihright hright)
  | marked _ _ ih => exact (ih hdot).unary
  | int htoken =>
      exact .literal (fun _ => rfl) fun token hkind =>
        ⟨_, .int (hkind.trans rfl), rfl⟩
  | str htoken =>
      exact .literal (fun _ => rfl) fun token hkind =>
        ⟨_, .str (hkind.trans rfl), rfl⟩
  | trueWord htoken =>
      exact .literal (fun _ => rfl) fun token hkind =>
        ⟨_, .trueWord (hkind.trans rfl), rfl⟩
  | falseWord htoken =>
      exact .literal (fun _ => rfl) fun token hkind =>
        ⟨_, .falseWord (hkind.trans rfl), rfl⟩
  | call _ _ _ _ _ ih =>
      rw [Expr.hasDot, Expr.hasDotList_eq, List.any_eq_false] at hdot
      refine .call rfl fun arg harg => ?_
      obtain ⟨member, hmember, rfl⟩ := Listing.exists_member harg
      exact ih member hmember (by simpa using hdot member.2 harg)
  | loc hpart => exact .loc hpart hdot

end MiniLang

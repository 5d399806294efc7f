/-
What the tokens of a printed expression tell. They say where the expression ends in a
longer list, and which expression it is, but for its places and links. No grammar is
needed for this, so it holds of field accesses as well.
-/
import MiniLang.Proofs.Grammar.Leaves
import MiniLang.Proofs.Print.Dots
import MiniLang.Tree.Relabel
import Mathlib.Logic.Basic

namespace MiniLang

/-- Whether what is left is empty or starts with a token of a certain kind. -/
def Behind (ends : TokenKind → Prop) (rest : List TokenKind) : Prop :=
  ∀ kind ∈ rest.head?, ends kind

/-- Whether two rows of tokens begin the same list only if the same is written in them,
as long as they leave what may stand behind them. -/
def Tells (ends : TokenKind → Prop) (front front' : List TokenKind) (same : Prop) : Prop :=
  ∀ rest rest', Behind ends rest → Behind ends rest' →
    front ++ rest = front' ++ rest' → same ∧ rest = rest'

section Tells

variable {ends inner : TokenKind → Prop} {front front' more more' : List TokenKind}
  {same other : Prop}

theorem behind_nil : Behind ends [] := by
  simp [Behind]

theorem behind_cons {kind : TokenKind} (h : ends kind) (rest : List TokenKind) :
    Behind ends (kind :: rest) := by
  intro first hfirst
  obtain rfl : kind = first := by simpa using hfirst
  exact h

theorem Tells.refl (h : same) : Tells ends front front same :=
  fun _ _ _ _ htokens => ⟨h, List.append_cancel_left htokens⟩

theorem Tells.same_of_eq (h : Tells ends front front' same) (htokens : front = front') :
    same :=
  (h [] [] behind_nil behind_nil (congrArg (· ++ []) htokens)).1

theorem Tells.imp (h : Tells ends front front' same) (himp : same → other) :
    Tells ends front front' other := by
  intro rest rest' hrest hrest' htokens
  obtain ⟨hsame, hrests⟩ := h rest rest' hrest hrest' htokens
  exact ⟨himp hsame, hrests⟩

theorem Tells.mono (h : Tells inner front front' same)
    (hends : ∀ kind, ends kind → inner kind) : Tells ends front front' same :=
  fun rest rest' hrest hrest' => h rest rest' (fun kind hkind => hends kind (hrest kind hkind))
    fun kind hkind => hends kind (hrest' kind hkind)

theorem Tells.symm (h : Tells ends front front' same) : Tells ends front' front same := by
  intro rest rest' hrest hrest' htokens
  obtain ⟨hsame, hrests⟩ := h rest' rest hrest' hrest htokens.symm
  exact ⟨hsame, hrests.symm⟩

/-- Rows whose first tokens differ begin different lists. -/
theorem Tells.cons {kind kind' : TokenKind}
    (h : kind = kind' → Tells ends front front' same) :
    Tells ends (kind :: front) (kind' :: front') same := by
  intro rest rest' hrest hrest' htokens
  obtain ⟨hkind, hbehind⟩ := List.cons.inj htokens
  exact h hkind rest rest' hrest hrest' hbehind

/-- Rows with different first tokens. -/
theorem Tells.of_ne {kind kind' : TokenKind} (h : kind ≠ kind') :
    Tells ends (kind :: front) (kind' :: front') same :=
  .cons fun hkind => absurd hkind h

theorem Tells.append (h : Tells inner front front' same)
    (hinner : ∀ rest, Behind ends rest → Behind inner (more ++ rest))
    (hinner' : ∀ rest, Behind ends rest → Behind inner (more' ++ rest))
    (hmore : same → Tells ends more more' other) :
    Tells ends (front ++ more) (front' ++ more') other := by
  intro rest rest' hrest hrest' htokens
  rw [List.append_assoc, List.append_assoc] at htokens
  obtain ⟨hsame, hbehind⟩ := h _ _ (hinner rest hrest) (hinner' rest' hrest') htokens
  exact hmore hsame rest rest' hrest hrest' hbehind

/-- Rows with a token behind each of them. -/
theorem Tells.before (h : Tells inner front front' same) {kind kind' : TokenKind}
    (hkind : inner kind) (hkind' : inner kind')
    (hmore : same → kind = kind' → Tells ends more more' other) :
    Tells ends (front ++ kind :: more) (front' ++ kind' :: more') other :=
  h.append (fun _ _ => behind_cons hkind _) (fun _ _ => behind_cons hkind' _)
    fun hsame => .cons (hmore hsame)

/-- Rows with the same token behind each of them. -/
theorem Tells.before_same (h : Tells inner front front' same) {kind : TokenKind}
    (hkind : inner kind) (hmore : same → Tells ends more more' other) :
    Tells ends (front ++ kind :: more) (front' ++ kind :: more') other :=
  h.before hkind hkind fun hsame _ => hmore hsame

/-- Nothing ends where a token stands that may not stand behind it. -/
theorem Tells.nil_of_not {kind : TokenKind} (h : ¬ ends kind) :
    Tells ends [] (kind :: more) same := by
  intro rest rest' hrest _ htokens
  rw [List.nil_append] at htokens
  rw [htokens] at hrest
  exact absurd (hrest kind rfl) h

/-- Whether tokens start where a tree can end, but not a row of trees. -/
def Resumes (ends inner : TokenKind → Prop) (front : List TokenKind) : Prop :=
  ∃ kind more, front = kind :: more ∧ inner kind ∧ ¬ ends kind

section Rows

variable {α β : Type} {kindsOfTree : α → List TokenKind} {label : α → β}
  {trees trees' : List α}

theorem behind_of_resumes (hends : ∀ kind, ends kind → inner kind)
    (htrees : ∀ tree ∈ trees, Resumes ends inner (kindsOfTree tree))
    {rest : List TokenKind} (hrest : Behind ends rest) :
    Behind inner (trees.flatMap kindsOfTree ++ rest) := by
  cases trees with
  | nil => exact fun kind hkind => hends kind (hrest kind hkind)
  | cons tree trees =>
      obtain ⟨kind, more, hkinds, hkind, _⟩ := htrees tree (by simp)
      rw [List.flatMap_cons, hkinds]
      exact behind_cons hkind _

/-- No row ends where another tree stands. -/
theorem Tells.nil_of_resumes {tree : α} (h : Resumes ends inner (kindsOfTree tree)) :
    Tells ends [] ((tree :: trees).flatMap kindsOfTree) same := by
  obtain ⟨kind, more, hkinds, _, hkind⟩ := h
  rw [List.flatMap_cons, hkinds]
  exact .nil_of_not hkind

/-- Trees behind each other, when no tree starts where the row can end. -/
theorem Tells.flatMap (hends : ∀ kind, ends kind → inner kind)
    (htrees : ∀ tree ∈ trees, Resumes ends inner (kindsOfTree tree))
    (htrees' : ∀ tree ∈ trees', Resumes ends inner (kindsOfTree tree))
    (htells : ∀ tree ∈ trees, ∀ tree' ∈ trees',
      Tells inner (kindsOfTree tree) (kindsOfTree tree') (label tree = label tree')) :
    Tells ends (trees.flatMap kindsOfTree) (trees'.flatMap kindsOfTree)
      (trees.map label = trees'.map label) := by
  induction trees generalizing trees' with
  | nil =>
      cases trees' with
      | nil => exact .refl rfl
      | cons tree' rest' => exact .nil_of_resumes (htrees' tree' (by simp))
  | cons tree rest ih =>
      cases trees' with
      | nil => exact (Tells.nil_of_resumes (htrees tree (by simp))).symm
      | cons tree' rest' =>
          have hbehind : ∀ other ∈ rest, Resumes ends inner (kindsOfTree other) :=
            fun other hother => htrees other (by simp [hother])
          have hbehind' : ∀ other ∈ rest', Resumes ends inner (kindsOfTree other) :=
            fun other hother => htrees' other (by simp [hother])
          have hmore := ih hbehind hbehind' fun other hother other' hother' =>
            htells other (by simp [hother]) other' (by simp [hother'])
          refine (htells tree (by simp) tree' (by simp)).append
            (fun _ => behind_of_resumes hends hbehind)
            (fun _ => behind_of_resumes hends hbehind') fun hsame => hmore.imp fun hrest => ?_
          rw [List.map_cons, List.map_cons, hsame, hrest]

end Rows

section Lists

variable {α β : Type} {itemsOf : α → List PrintItem} {label : α → β} {values values' : List α}
  (hcomma : inner (.punct .comma)) (hclosing : inner (.punct .rightParen))

include hcomma hclosing

/-- Behind a member of a list stands a comma or the parenthesis that closes the list. -/
theorem behind_others (parts : List (List PrintItem)) (rest : List TokenKind) :
    Behind inner (kindsOf (printOthers parts) ++ [.punct .rightParen] ++ rest) := by
  rw [kindsOf_others]
  cases parts with
  | nil => exact behind_cons hclosing _
  | cons part parts => exact behind_cons hcomma _

/-- The printed items behind the first one tell two lists apart if the items are told
apart. -/
theorem Tells.others
    (htells : ∀ value ∈ values, ∀ value' ∈ values', Tells inner (kindsOf (itemsOf value))
      (kindsOf (itemsOf value')) (label value = label value')) :
    Tells ends (kindsOf (printOthers (values.map itemsOf)) ++ [.punct .rightParen])
      (kindsOf (printOthers (values'.map itemsOf)) ++ [.punct .rightParen])
      (values.map label = values'.map label) := by
  rw [kindsOf_others, kindsOf_others, List.flatMap_map, List.flatMap_map]
  let closes (kind : TokenKind) : Prop := kind = .punct .rightParen
  have hcloses : ∀ kind, closes kind → inner kind := by
    rintro kind rfl
    exact hclosing
  have hresumes : ∀ value : α, Resumes closes inner
      (.punct .comma :: kindsOf (itemsOf value)) :=
    fun value => ⟨_, _, rfl, hcomma, by simp [closes]⟩
  have hvalues := Tells.flatMap hcloses (fun value (_ : value ∈ values) => hresumes value)
    (fun value (_ : value ∈ values') => hresumes value)
    fun value hvalue value' hvalue' => .cons fun _ => htells value hvalue value' hvalue'
  exact hvalues.before_same rfl fun hsame => .refl hsame

/-- Lists with commas between their members, and a parenthesis behind them. -/
theorem Tells.separated
    (hheads : ∀ value, ∃ kind more,
      kindsOf (itemsOf value) = kind :: more ∧ kind ≠ .punct .rightParen)
    (htells : ∀ value ∈ values, ∀ value' ∈ values', Tells inner (kindsOf (itemsOf value))
      (kindsOf (itemsOf value')) (label value = label value')) :
    Tells ends (kindsOf (printSeparated (values.map itemsOf)) ++ [.punct .rightParen])
      (kindsOf (printSeparated (values'.map itemsOf)) ++ [.punct .rightParen])
      (values.map label = values'.map label) := by
  have hempty : ∀ {first : α} {rest : List α} {same : Prop}, Tells ends
      (kindsOf (printSeparated []) ++ [.punct .rightParen])
      (kindsOf (printSeparated ((first :: rest).map itemsOf)) ++ [.punct .rightParen])
      same := by
    intro first rest same
    obtain ⟨kind, more, hkinds, hkind⟩ := hheads first
    rw [List.map_cons, printSeparated_cons, kindsOf_append, hkinds]
    exact .cons fun hsame => absurd hsame.symm hkind
  cases values with
  | nil =>
      cases values' with
      | nil => exact .refl rfl
      | cons first' rest' => exact hempty
  | cons first rest =>
      cases values' with
      | nil => exact hempty.symm
      | cons first' rest' =>
          obtain ⟨hfirst, hrest⟩ := List.forall_mem_cons.mp htells
          have hothers : Tells ends _ _ _ := Tells.others hcomma hclosing
            fun value hvalue value' hvalue' =>
              hrest value hvalue value' (List.mem_cons_of_mem _ hvalue')
          rw [List.map_cons, List.map_cons, printSeparated_cons, printSeparated_cons,
            kindsOf_append, kindsOf_append, List.append_assoc, List.append_assoc]
          refine (hfirst first' List.mem_cons_self).append
            (fun behind _ => behind_others hcomma hclosing _ behind)
            (fun behind _ => behind_others hcomma hclosing _ behind)
            fun hsame => hothers.imp fun hmore => ?_
          rw [List.map_cons, List.map_cons, hsame, hmore]

end Lists

end Tells

/-- A name without its place and its link. -/
def Ident.bare (id : Ident) : Ident := ⟨id.name, .point .origin, none⟩

def Expr.bare : Expr → Expr := Expr.relabel Ident.bare fun _ => .point .origin

/-- The tokens of an expression that is printed inside another one. -/
def Expr.kinds (expr : Expr) : List TokenKind := kindsOf (expr.items true)

/-- The token that an expression inside another one starts with. -/
def Expr.opening : Expr → TokenKind
  | .int _ value => .int value
  | .str _ text => .str text
  | .bool _ value => .keyword (if value then .true_ else .false_)
  | .name id => .ident id.name
  | .call callee _ => .ident callee.name
  | _ => .punct .leftParen

/-- What may stand behind an expression: anything that does not make a call of a name. -/
def EndsExpr (kind : TokenKind) : Prop := kind ≠ .punct .leftParen

section Expr

theorem endsExpr_punct {mark : Punct} (h : mark ≠ .leftParen) : EndsExpr (.punct mark) :=
  fun hmark => h (TokenKind.punct.inj hmark)

theorem Expr.kinds_name (id : Ident) : (Expr.name id).kinds = [.ident id.name] :=
  kindsOf_ident id

theorem Expr.kinds_dot (loc : Expr) (field : Ident) : (Expr.dot loc field).kinds =
    .punct .leftParen :: (loc.kinds ++ .punct .rightParen ::
      [.punct .dot, .ident field.name]) := by
  simp [Expr.kinds, Expr.items, kindsOf_ident]

theorem Expr.kinds_assign (lhs rhs : Expr) : (Expr.assign lhs rhs).kinds =
    .punct .leftParen :: (lhs.kinds ++ .punct .equal ::
      (rhs.kinds ++ [.punct .rightParen])) := by
  simp [Expr.kinds, Expr.items]

theorem Expr.kinds_call (callee : Ident) (args : List Expr) :
    (Expr.call callee args).kinds = .ident callee.name :: .punct .leftParen ::
      (kindsOf (printSeparated (args.map (Expr.items true))) ++ [.punct .rightParen]) := by
  simp [Expr.kinds, Expr.items, Expr.itemsOfArgs_eq, kindsOf_ident]

theorem Expr.kinds_unary (op : UnaryOp) (operand : Expr) :
    (Expr.unary op operand).kinds = .punct .leftParen :: .punct op.punct ::
      (operand.kinds ++ [.punct .rightParen]) := by
  simp [Expr.kinds, Expr.items]

theorem Expr.kinds_binary (op : BinaryOp) (lhs rhs : Expr) :
    (Expr.binary op lhs rhs).kinds = .punct .leftParen :: (lhs.kinds ++ .punct op.punct ::
      (rhs.kinds ++ [.punct .rightParen])) := by
  simp [Expr.kinds, Expr.items]

theorem Expr.kinds_eq_cons (expr : Expr) : ∃ more, expr.kinds = expr.opening :: more := by
  cases expr with
  | int span value => exact ⟨_, rfl⟩
  | str span text => exact ⟨_, rfl⟩
  | bool span value => exact ⟨_, rfl⟩
  | name id => exact ⟨_, Expr.kinds_name id⟩
  | dot loc field => exact ⟨_, Expr.kinds_dot loc field⟩
  | assign lhs rhs => exact ⟨_, Expr.kinds_assign lhs rhs⟩
  | call callee args => exact ⟨_, Expr.kinds_call callee args⟩
  | unary op operand => exact ⟨_, Expr.kinds_unary op operand⟩
  | binary op lhs rhs => exact ⟨_, Expr.kinds_binary op lhs rhs⟩

theorem Expr.kinds_head (expr : Expr) :
    ∃ kind more, kindsOf (expr.items true) = kind :: more ∧ kind ≠ .punct .rightParen := by
  obtain ⟨more, hkinds⟩ := expr.kinds_eq_cons
  refine ⟨expr.opening, more, hkinds, ?_⟩
  cases expr <;> simp [Expr.opening]

variable {ends : TokenKind → Prop} {same : Prop}

/-- Expressions that start with different tokens are told apart by these. -/
theorem Tells.of_opening {expr other : Expr}
    (h : expr.opening = other.opening → Tells ends expr.kinds other.kinds same) :
    Tells ends expr.kinds other.kinds same := by
  by_cases hopening : expr.opening = other.opening
  · exact h hopening
  · obtain ⟨more, hmore⟩ := expr.kinds_eq_cons
    obtain ⟨more', hmore'⟩ := other.kinds_eq_cons
    rw [hmore, hmore']
    exact .cons fun hsame => absurd hsame hopening

/-- No expression starts with a unary operator: one stands behind a parenthesis. -/
theorem Tells.of_unary (op : UnaryOp) (expr : Expr) (more more' : List TokenKind) :
    Tells ends (.punct op.punct :: more) (expr.kinds ++ more') same := by
  obtain ⟨rest, hkinds⟩ := expr.kinds_eq_cons
  rw [hkinds]
  refine .cons fun hsame => ?_
  cases op <;> cases expr <;> cases hsame

/-- The first operand of an expression in parentheses, with the mark and the tokens behind
it. A unary operator has none. -/
def Expr.led? : Expr → Option (Expr × Punct × List TokenKind)
  | .dot loc field => some (loc, .rightParen, [.punct .dot, .ident field.name])
  | .assign lhs rhs => some (lhs, .equal, rhs.kinds ++ [.punct .rightParen])
  | .binary op lhs rhs => some (lhs, op.punct, rhs.kinds ++ [.punct .rightParen])
  | _ => none

theorem BinaryOp.punct_ne (op : BinaryOp) : op.punct ≠ .leftParen := by
  cases op <;> decide

theorem BinaryOp.punct_inj {op other : BinaryOp} (h : op.punct = other.punct) : op = other := by
  cases op <;> cases other <;> first | rfl | cases h

theorem UnaryOp.punct_inj {op other : UnaryOp} (h : op.punct = other.punct) : op = other := by
  cases op <;> cases other <;> first | rfl | cases h

theorem Expr.kinds_of_led {expr left : Expr} {mark : Punct} {more : List TokenKind}
    (h : expr.led? = some (left, mark, more)) : mark ≠ .leftParen ∧
      expr.kinds = .punct .leftParen :: (left.kinds ++ .punct mark :: more) := by
  cases expr <;> cases h
  · exact ⟨by decide, Expr.kinds_dot _ _⟩
  · exact ⟨by decide, Expr.kinds_assign _ _⟩
  · exact ⟨BinaryOp.punct_ne _, Expr.kinds_binary _ _ _⟩

/-- Expressions in parentheses are told apart by their first operand and the mark behind
it, then by what is left. -/
theorem Tells.of_led {expr other left : Expr} {mark : Punct} {more : List TokenKind}
    (hled : expr.led? = some (left, mark, more))
    (hleft : ∀ other : Expr,
      Tells EndsExpr left.kinds other.kinds (left.bare = other.bare))
    (h : ∀ left' mark' more', other.led? = some (left', mark', more') →
      left.bare = left'.bare → mark = mark' → Tells ends more more' same) :
    Tells ends expr.kinds other.kinds same := by
  obtain ⟨hmark, hkinds⟩ := Expr.kinds_of_led hled
  rw [hkinds]
  cases hother : other.led? with
  | some led =>
      obtain ⟨left', mark', more'⟩ := led
      obtain ⟨hmark', hkinds'⟩ := Expr.kinds_of_led hother
      rw [hkinds']
      refine .cons fun _ => (hleft left').before (endsExpr_punct hmark)
        (endsExpr_punct hmark') fun hsame hmarks => ?_
      exact h left' mark' more' hother hsame (TokenKind.punct.inj hmarks)
  | none =>
      cases other with
      | unary op operand =>
          rw [Expr.kinds_unary]
          exact .cons fun _ => (Tells.of_unary op left _ _).symm
      | dot | assign | binary => cases hother
      | int | str | bool | name => exact .of_ne (by simp)
      | call callee args =>
          rw [Expr.kinds_call]
          exact .of_ne (by simp)

theorem Ident.bare_eq {id other : Ident} (h : TokenKind.ident id.name = .ident other.name) :
    id.bare = other.bare := by
  rw [Ident.bare, Ident.bare, TokenKind.ident.inj h]

/-- The tokens of an expression tell it from all others, up to where it ends. -/
theorem Expr.tells (expr other : Expr) :
    Tells EndsExpr expr.kinds other.kinds (expr.bare = other.bare) := by
  have hends : EndsExpr (.punct .rightParen) := endsExpr_punct (by decide)
  -- the first token, or the mark behind the first operand, says what `other` can be
  induction expr using Expr.induct generalizing other with
  | int span value =>
      refine .of_opening fun hopening => ?_
      cases other <;> cases hopening
      exact .refl rfl
  | str span text =>
      refine .of_opening fun hopening => ?_
      cases other <;> cases hopening
      exact .refl rfl
  | bool span value =>
      refine .of_opening fun hopening => ?_
      cases value <;> cases other with
      | bool span' value' => cases value' <;> first | exact .refl rfl | cases hopening
      | _ => cases hopening
  | name id =>
      refine .of_opening fun hopening => ?_
      cases other with
      | name id' =>
          rw [Expr.kinds_name, Expr.kinds_name]
          exact .cons fun hname => .refl (congrArg Expr.name (Ident.bare_eq hname))
      | call callee args =>
          rw [Expr.kinds_name, Expr.kinds_call]
          -- a name begins a call of it, but no parenthesis may stand behind the name
          exact .cons fun _ => .nil_of_not (absurd rfl)
      | _ => cases hopening
  | dot loc field ih =>
      refine .of_led rfl ih fun left mark more hled hsame hmark => ?_
      cases other with
      | dot loc' field' =>
          cases hled
          refine .cons fun _ => .cons fun hfield => .refl ?_
          exact congrArg₂ Expr.dot hsame (Ident.bare_eq hfield)
      | assign lhs rhs => cases hled; cases hmark
      | binary op lhs rhs => cases hled; cases op <;> cases hmark
      | _ => cases hled
  | assign lhs rhs ihlhs ihrhs =>
      refine .of_led rfl ihlhs fun left mark more hled hsame hmark => ?_
      cases other with
      | assign lhs' rhs' =>
          cases hled
          refine (ihrhs rhs').before_same hends fun hrhs => .refl ?_
          exact congrArg₂ Expr.assign hsame hrhs
      | dot loc field => cases hled; cases hmark
      | binary op lhs rhs => cases hled; cases op <;> cases hmark
      | _ => cases hled
  | call callee args ih =>
      refine .of_opening fun hopening => ?_
      cases other with
      | name id =>
          rw [Expr.kinds_name, Expr.kinds_call]
          exact .cons fun _ => (Tells.nil_of_not (absurd rfl)).symm
      | call callee' args' =>
          rw [Expr.kinds_call, Expr.kinds_call]
          refine .cons fun hcallee => .cons fun _ => ?_
          have hargs : Tells EndsExpr _ _ (args.map Expr.bare = args'.map Expr.bare) :=
            Tells.separated (endsExpr_punct (by decide)) hends Expr.kinds_head
              fun arg harg arg' _ => ih arg harg arg'
          refine hargs.imp fun hsame => ?_
          simp only [Expr.bare, Expr.relabel, Expr.relabelList_eq] at hsame ⊢
          exact congrArg₂ Expr.call (Ident.bare_eq hcallee) hsame
      | _ => cases hopening
  | unary op operand ih =>
      refine .of_opening fun hopening => ?_
      rw [Expr.kinds_unary]
      cases other with
      | unary op' operand' =>
          rw [Expr.kinds_unary]
          refine .cons fun _ => .cons fun hop => (ih operand').before_same hends
            fun hsame => .refl ?_
          obtain rfl : op = op' := UnaryOp.punct_inj (TokenKind.punct.inj hop)
          exact congrArg (Expr.unary op) hsame
      | dot loc field =>
          rw [Expr.kinds_dot]
          exact .cons fun _ => .of_unary op loc _ _
      | assign lhs rhs =>
          rw [Expr.kinds_assign]
          exact .cons fun _ => .of_unary op lhs _ _
      | binary op' lhs rhs =>
          rw [Expr.kinds_binary]
          exact .cons fun _ => .of_unary op lhs _ _
      | _ => cases hopening
  | binary op lhs rhs ihlhs ihrhs =>
      refine .of_led rfl ihlhs fun left mark more hled hsame hmark => ?_
      cases other with
      | binary op' lhs' rhs' =>
          cases hled
          obtain rfl := BinaryOp.punct_inj hmark
          refine (ihrhs rhs').before_same hends fun hrhs => .refl ?_
          exact congrArg₂ (Expr.binary op) hsame hrhs
      | assign lhs' rhs' => cases hled; cases op <;> cases hmark
      | dot loc field => cases hled; cases op <;> cases hmark
      | _ => cases hled

/-- What may stand behind an expression that is printed alone: neither what makes a call of
a name, nor what makes an assignment of a location. -/
def EndsAlone (kind : TokenKind) : Prop := EndsExpr kind ∧ kind ≠ .punct .equal

theorem endsAlone_punct {mark : Punct} (h : mark ≠ .leftParen) (hequal : mark ≠ .equal) :
    EndsAlone (.punct mark) :=
  ⟨endsExpr_punct h, fun hmark => hequal (TokenKind.punct.inj hmark)⟩

theorem Expr.kinds_alone_assign (lhs rhs : Expr) :
    kindsOf ((Expr.assign lhs rhs).items false) =
      lhs.kinds ++ .punct .equal :: rhs.kinds := by
  simp [Expr.kinds, Expr.items]

theorem Expr.kinds_alone {expr : Expr} (h : ∀ lhs rhs, expr ≠ .assign lhs rhs) :
    kindsOf (expr.items false) = expr.kinds := by
  cases expr with
  | assign lhs rhs => exact absurd rfl (h lhs rhs)
  | _ => rfl

/-- An assignment without parentheses is none of the other expressions. -/
theorem Tells.of_assign {lhs rhs other : Expr} (hother : ∀ lhs rhs, other ≠ .assign lhs rhs) :
    Tells EndsAlone (kindsOf ((Expr.assign lhs rhs).items false))
      (kindsOf (other.items false)) same := by
  rw [Expr.kinds_alone_assign, Expr.kinds_alone hother, ← List.append_nil other.kinds]
  refine (lhs.tells other).append (fun _ _ => behind_cons (endsExpr_punct (by decide)) _)
    (fun rest hrest kind hkind => (hrest kind hkind).1) fun _ => ?_
  exact (Tells.nil_of_not fun hends => hends.2 rfl).symm

/-- The tokens of an expression that is printed alone tell it from all others. -/
theorem Expr.tells_alone (expr other : Expr) :
    Tells EndsAlone (kindsOf (expr.items false)) (kindsOf (other.items false))
      (expr.bare = other.bare) := by
  by_cases hexpr : ∃ lhs rhs, expr = .assign lhs rhs
  · obtain ⟨lhs, rhs, rfl⟩ := hexpr
    by_cases hother : ∃ lhs rhs, other = .assign lhs rhs
    · obtain ⟨lhs', rhs', rfl⟩ := hother
      rw [Expr.kinds_alone_assign, Expr.kinds_alone_assign]
      refine (lhs.tells lhs').before_same (endsExpr_punct (by decide)) fun hlhs => ?_
      refine ((rhs.tells rhs').mono fun kind hkind => hkind.1).imp fun hrhs => ?_
      exact congrArg₂ Expr.assign hlhs hrhs
    · exact .of_assign fun lhs rhs h => hother ⟨lhs, rhs, h⟩
  · have hplain : ∀ lhs rhs, expr ≠ .assign lhs rhs := fun lhs rhs h => hexpr ⟨lhs, rhs, h⟩
    by_cases hother : ∃ lhs rhs, other = .assign lhs rhs
    · obtain ⟨lhs', rhs', rfl⟩ := hother
      exact (Tells.of_assign hplain).symm
    · rw [Expr.kinds_alone hplain,
        Expr.kinds_alone fun lhs rhs h => hother ⟨lhs, rhs, h⟩]
      exact (expr.tells other).mono fun kind hkind => hkind.1

end Expr

end MiniLang

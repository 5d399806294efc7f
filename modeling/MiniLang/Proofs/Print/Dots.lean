/-
Field accesses in printed trees. A dot is printed behind a parenthesis, and no program
has a dot there.
-/
import MiniLang.Proofs.Grammar.Acceptance
import MiniLang.Proofs.Print.Reading
import MiniLang.Tree.Induction

namespace MiniLang

mutual

/-- Whether a field is accessed in an expression. -/
def Expr.hasDot : Expr → Bool
  | .dot _ _ => true
  | .assign lhs rhs => lhs.hasDot || rhs.hasDot
  | .call _ args => Expr.hasDotList args
  | .unary _ operand => operand.hasDot
  | .binary _ lhs rhs => lhs.hasDot || rhs.hasDot
  | _ => false

def Expr.hasDotList : List Expr → Bool
  | [] => false
  | expr :: rest => expr.hasDot || Expr.hasDotList rest

end

@[simp] theorem Expr.hasDotList_eq (exprs : List Expr) :
    Expr.hasDotList exprs = exprs.any Expr.hasDot := by
  induction exprs with
  | nil => rfl
  | cons expr rest ih => rw [Expr.hasDotList, ih, List.any_cons]

mutual

def Decl.hasDot : Decl → Bool
  | .var _ _ => false
  | .func _ _ _ body => body.hasDot
  | .struct _ fields => Decl.hasDotList fields

def Decl.hasDotList : List Decl → Bool
  | [] => false
  | decl :: rest => decl.hasDot || Decl.hasDotList rest

def Block.hasDot : Block → Bool
  | .mk decls stmts => Decl.hasDotList decls || Stmt.hasDotList stmts

def Stmt.hasDot : Stmt → Bool
  | .assign expr => expr.hasDot
  | .inc loc => loc.hasDot
  | .dec loc => loc.hasDot
  | .read loc => loc.hasDot
  | .write expr => expr.hasDot
  | .ifThen cond body => cond.hasDot || body.hasDot
  | .ifElse cond thenBody elseBody =>
      cond.hasDot || thenBody.hasDot || elseBody.hasDot
  | .while_ cond body => cond.hasDot || body.hasDot
  | .call _ args => args.any Expr.hasDot
  | .ret value => value.any Expr.hasDot

def Stmt.hasDotList : List Stmt → Bool
  | [] => false
  | stmt :: rest => stmt.hasDot || Stmt.hasDotList rest

end

@[simp] theorem Decl.hasDotList_eq (decls : List Decl) :
    Decl.hasDotList decls = decls.any Decl.hasDot := by
  induction decls with
  | nil => rfl
  | cons decl rest ih => rw [Decl.hasDotList, ih, List.any_cons]

@[simp] theorem Stmt.hasDotList_eq (stmts : List Stmt) :
    Stmt.hasDotList stmts = stmts.any Stmt.hasDot := by
  induction stmts with
  | nil => rfl
  | cons stmt rest ih => rw [Stmt.hasDotList, ih, List.any_cons]

/-- Whether a field is accessed anywhere in a program. -/
def Program.hasDot (program : Program) : Bool := program.decls.any Decl.hasDot

/-- Whether every dot stands behind a name. -/
def Dotted : List TokenKind → Prop
  | [] => True
  | kind :: rest =>
      (rest.head? = some (.punct .dot) → ∃ name, kind = .ident name) ∧ Dotted rest

theorem dotted_append {front back : List TokenKind} (hfront : Dotted front)
    (hback : Dotted back) (hhead : back.head? ≠ some (.punct .dot)) :
    Dotted (front ++ back) := by
  induction front with
  | nil => exact hback
  | cons kind rest ih =>
      obtain ⟨hkind, hrest⟩ := hfront
      refine ⟨?_, ih hrest⟩
      intro hnext
      cases rest with
      | nil => exact absurd hnext hhead
      | cons next rest => exact hkind hnext

theorem not_dotted_of_paren (front back : List TokenKind) :
    ¬ Dotted (front ++ .punct .rightParen :: .punct .dot :: back) := by
  induction front with
  | nil =>
      rintro ⟨hparen, _⟩
      obtain ⟨name, hname⟩ := hparen rfl
      exact absurd hname (by simp)
  | cons kind front ih => exact fun h => ih h.2

def Derivation.kinds (part : Derivation) : List TokenKind :=
  part.tokens.map Token.kind

@[simp] theorem Derivation.kinds_leaf (token : Token) :
    (Derivation.leaf token).kinds = [token.kind] := rfl

@[simp] theorem Derivation.kinds_node (category : Category)
    (parts : List Derivation) :
    (Derivation.node category parts).kinds = parts.flatMap Derivation.kinds := by
  rw [Derivation.kinds, Derivation.tokens_node, List.map_flatMap]
  rfl

/-- Dots stand behind names in parts behind each other, if they do in every part and no
part starts with a dot. -/
theorem dotted_flatMap {parts : List Derivation}
    (h : ∀ part ∈ parts, Dotted part.kinds ∧ part.kinds.head? ≠ some (.punct .dot)) :
    Dotted (parts.flatMap Derivation.kinds) ∧
      (parts.flatMap Derivation.kinds).head? ≠ some (.punct .dot) := by
  induction parts with
  | nil => exact ⟨trivial, by simp⟩
  | cons part parts ih =>
      obtain ⟨hpart, hhead⟩ := h part (by simp)
      obtain ⟨hparts, hheads⟩ := ih fun other hother => h other (by simp [hother])
      rw [List.flatMap_cons]
      refine ⟨dotted_append hpart hparts hheads, ?_⟩
      cases hkinds : part.kinds with
      | nil => exact hheads
      | cons kind kinds =>
          rw [hkinds] at hhead
          exact hhead

theorem dotted_accesses {kinds : List TokenKind} {accesses : List FieldAccess}
    (haccesses : ∀ access ∈ accesses,
      access.dot.kind = .punct .dot ∧ access.word.kind = .ident access.name)
    (name : String) (hkinds : kinds =
      .ident name :: (accesses.flatMap FieldAccess.parts).flatMap Derivation.kinds) :
    Dotted kinds := by
  subst hkinds
  induction accesses generalizing name with
  | nil => exact ⟨fun _ => ⟨name, rfl⟩, trivial⟩
  | cons access accesses ih =>
      obtain ⟨hdot, hword⟩ := haccesses access (by simp)
      have hmore := ih (fun other hother => haccesses other (by simp [hother])) access.name
      refine ⟨fun _ => ⟨name, rfl⟩, ?_⟩
      simp only [List.flatMap_cons, FieldAccess.parts, List.cons_append, List.nil_append,
        Derivation.kinds_leaf, hword]
      exact ⟨by simp, hmore⟩

/-- In a program, every dot stands behind a name. -/
theorem hereditary_dotted : Hereditary fun part =>
    Dotted part.kinds ∧ part.kinds.head? ≠ some (.punct .dot) where
  leaf token _ hdot := ⟨⟨by simp, trivial⟩, by simpa using hdot⟩
  loc h := by
    cases h with
    | @access word name accesses hword haccesses =>
        refine ⟨dotted_accesses haccesses name ?_, by simp [hword]⟩
        simp [hword]
  node h := by
    rw [Derivation.kinds_node]
    exact dotted_flatMap h

/-- The kinds of the tokens among printed items. -/
def kindsOf (items : List PrintItem) : List TokenKind :=
  items.filterMap PrintItem.kind?

section Kinds

variable (items : List PrintItem)

@[simp] theorem kindsOf_nil : kindsOf [] = [] := rfl

@[simp] theorem kindsOf_append (front back : List PrintItem) :
    kindsOf (front ++ back) = kindsOf front ++ kindsOf back := List.filterMap_append

@[simp] theorem kindsOf_token (kind : TokenKind) :
    kindsOf (.token kind :: items) = kind :: kindsOf items := rfl

@[simp] theorem kindsOf_mark (mark : Punct) :
    kindsOf (printMark mark :: items) = .punct mark :: kindsOf items := rfl

@[simp] theorem kindsOf_word (word : Keyword) :
    kindsOf (printWord word :: items) = .keyword word :: kindsOf items := rfl

@[simp] theorem kindsOf_space (count : Nat) :
    kindsOf (.space count :: items) = kindsOf items := rfl

@[simp] theorem kindsOf_newline : kindsOf (.newline :: items) = kindsOf items := rfl

@[simp] theorem kindsOf_flatMap {α : Type} (trees : List α)
    (itemsOf : α → List PrintItem) :
    kindsOf (trees.flatMap itemsOf) = trees.flatMap fun tree => kindsOf (itemsOf tree) :=
  List.filterMap_flatMap

@[simp] theorem kindsOf_parens :
    kindsOf (printParens items) =
      .punct .leftParen :: kindsOf items ++ [.punct .rightParen] := by
  simp [printParens]

@[simp] theorem kindsOf_line (level : Nat) :
    kindsOf (printLine level items) = kindsOf items := by
  simp [printLine]

end Kinds

/-- Whether a dot stands behind a parenthesis. -/
def BareDot (kinds : List TokenKind) : Prop :=
  ∃ front back, kinds = front ++ .punct .rightParen :: .punct .dot :: back

theorem BareDot.append_left {kinds : List TokenKind} (h : BareDot kinds)
    (front : List TokenKind) : BareDot (front ++ kinds) := by
  obtain ⟨before, behind, rfl⟩ := h
  exact ⟨front ++ before, behind, by simp⟩

theorem BareDot.append_right {kinds : List TokenKind} (h : BareDot kinds)
    (back : List TokenKind) : BareDot (kinds ++ back) := by
  obtain ⟨before, behind, rfl⟩ := h
  exact ⟨before, behind ++ back, by simp⟩

theorem BareDot.cons {kinds : List TokenKind} (h : BareDot kinds) (kind : TokenKind) :
    BareDot (kind :: kinds) := h.append_left [kind]

theorem bareDot_flatMap {α : Type} {trees : List α} {kindsOfTree : α → List TokenKind}
    {tree : α} (htree : tree ∈ trees) (h : BareDot (kindsOfTree tree)) :
    BareDot (trees.flatMap kindsOfTree) := by
  obtain ⟨front, back, rfl⟩ := List.append_of_mem htree
  rw [List.flatMap_append, List.flatMap_cons]
  exact (h.append_right _).append_left _

theorem kindsOf_ident (id : Ident) : kindsOf id.items = [.ident id.name] := by
  cases hsymbol : id.symbol with
  | none => simp [Ident.items, hsymbol]
  | some symbol => simp [Ident.items, hsymbol, kindsOf, PrintItem.kind?]

theorem kindsOf_others (parts : List (List PrintItem)) :
    kindsOf (printOthers parts) =
      parts.flatMap fun part => .punct .comma :: kindsOf part := by
  induction parts with
  | nil => rfl
  | cons part rest ih =>
      rw [printOthers, List.flatMap_cons, ← printOthers, kindsOf_append, ih]
      simp

theorem bareDot_separated {parts : List (List PrintItem)} {part : List PrintItem}
    (hpart : part ∈ parts) (h : BareDot (kindsOf part)) :
    BareDot (kindsOf (printSeparated parts)) := by
  cases parts with
  | nil => exact absurd hpart List.not_mem_nil
  | cons first rest =>
      rw [printSeparated_cons, kindsOf_append, kindsOf_others]
      rcases List.mem_cons.mp hpart with rfl | hrest
      · exact h.append_right _
      · exact (bareDot_flatMap hrest (h.cons (.punct .comma))).append_left _

/-- An expression with a field access is printed with a dot behind a parenthesis. -/
theorem Expr.bareDot {expr : Expr} (h : expr.hasDot = true) (nested : Bool) :
    BareDot (kindsOf (expr.items nested)) := by
  induction expr using Expr.induct generalizing nested with
  | int | str | bool | name => exact absurd h (by simp [Expr.hasDot])
  | dot loc field ih =>
      refine ⟨.punct .leftParen :: kindsOf (loc.items true), kindsOf field.items, ?_⟩
      simp [Expr.items]
  | assign lhs rhs ihlhs ihrhs =>
      have hinner : BareDot (kindsOf (lhs.items true)
          ++ .punct .equal :: kindsOf (rhs.items true)) := by
        rcases Bool.or_eq_true_iff.mp h with hlhs | hrhs
        · exact (ihlhs hlhs true).append_right _
        · exact ((ihrhs hrhs true).cons _).append_left _
      cases nested with
      | false => simpa [Expr.items] using hinner
      | true =>
          simpa [Expr.items] using (hinner.append_right [.punct .rightParen]).cons
            (.punct .leftParen)
  | call callee args ih =>
      rw [Expr.hasDot, Expr.hasDotList_eq, List.any_eq_true] at h
      obtain ⟨arg, harg, hdot⟩ := h
      have hargs := bareDot_separated (List.mem_map_of_mem harg) (ih arg harg hdot true)
      simp only [Expr.items, Expr.itemsOfArgs_eq, kindsOf_append, kindsOf_parens]
      exact ((hargs.append_right _).cons _).append_left _
  | unary op operand ih =>
      have hinner := ((ih h true).cons (.punct op.punct)).append_right
        [.punct .rightParen]
      simpa [Expr.items] using hinner.cons (.punct .leftParen)
  | binary op lhs rhs ihlhs ihrhs =>
      have hinner : BareDot (kindsOf (lhs.items true)
          ++ .punct op.punct :: kindsOf (rhs.items true)) := by
        rcases Bool.or_eq_true_iff.mp h with hlhs | hrhs
        · exact (ihlhs hlhs true).append_right _
        · exact ((ihrhs hrhs true).cons _).append_left _
      simpa [Expr.items] using (hinner.append_right [.punct .rightParen]).cons
        (.punct .leftParen)

theorem bareDot_block {decls : List Decl} {stmts : List Stmt}
    (hdecls : ∀ decl ∈ decls, decl.hasDot = true →
      ∀ level, BareDot (kindsOf (decl.items level)))
    (hstmts : ∀ stmt ∈ stmts, stmt.hasDot = true →
      ∀ level, BareDot (kindsOf (stmt.items level)))
    (h : (Block.mk decls stmts).hasDot = true) (level : Nat) :
    BareDot (kindsOf ((Block.mk decls stmts).items level)) := by
  rw [Block.hasDot, Decl.hasDotList_eq, Stmt.hasDotList_eq, Bool.or_eq_true,
    List.any_eq_true, List.any_eq_true] at h
  rw [Block.items, Decl.itemsOfList_eq, Stmt.itemsOfList_eq, kindsOf_append,
    kindsOf_flatMap, kindsOf_flatMap]
  rcases h with ⟨decl, hdecl, hdot⟩ | ⟨stmt, hstmt, hdot⟩
  · exact (bareDot_flatMap hdecl (hdecls decl hdecl hdot level)).append_right _
  · exact (bareDot_flatMap hstmt (hstmts stmt hstmt hdot level)).append_left _

theorem kindsOf_braced (level : Nat) (head body : List PrintItem) :
    kindsOf (printBraced level head body) =
      kindsOf head ++ .punct .leftBrace :: kindsOf body ++ [.punct .rightBrace] := by
  simp [printBraced]

theorem kindsOf_head (word : Keyword) (cond : Expr) :
    kindsOf (printHead word cond) = .keyword word :: .punct .leftParen ::
      kindsOf (cond.items true) ++ [.punct .rightParen] := by
  simp [printHead]

theorem bareDot_braced {level : Nat} {head body : List PrintItem}
    (h : BareDot (kindsOf head) ∨ BareDot (kindsOf body)) :
    BareDot (kindsOf (printBraced level head body)) := by
  rw [kindsOf_braced]
  rcases h with hhead | hbody
  · exact (hhead.append_right _).append_right _
  · exact ((hbody.cons _).append_left _).append_right _

theorem bareDot_head {word : Keyword} {cond : Expr} (h : cond.hasDot = true) :
    BareDot (kindsOf (printHead word cond)) := by
  rw [kindsOf_head]
  exact (((cond.bareDot h true).cons _).cons _).append_right _

/-- Declarations and statements with a field access are printed with a dot behind a
parenthesis. -/
theorem bareDot_items :
    (∀ decl : Decl, decl.hasDot = true →
      ∀ level, BareDot (kindsOf (decl.items level))) ∧
    ∀ stmt : Stmt, stmt.hasDot = true →
      ∀ level, BareDot (kindsOf (stmt.items level)) := by
  apply Stmt.inductBoth
  case var =>
    exact fun type id h => absurd h (by simp [Decl.hasDot])
  case func =>
    intro result id formals decls stmts ihdecls ihstmts h level
    have hbody := bareDot_block ihdecls ihstmts h (level + indentWidth)
    simp only [Decl.items, kindsOf_append]
    exact (hbody.append_left _).append_right _
  case struct =>
    intro id fields ih h level
    rw [Decl.hasDot, Decl.hasDotList_eq, List.any_eq_true] at h
    obtain ⟨field, hfield, hdot⟩ := h
    have hfields : BareDot (fields.flatMap fun field =>
        kindsOf (field.items (level + indentWidth))) :=
      bareDot_flatMap hfield (ih field hfield hdot (level + indentWidth))
    simp only [Decl.items, Decl.itemsOfList_eq, kindsOf_append, kindsOf_flatMap]
    exact (hfields.append_left _).append_right _
  case assign =>
    intro expr h level
    simpa [Stmt.items] using (expr.bareDot h false).append_right [.punct .semicolon]
  case inc =>
    intro loc h level
    simpa [Stmt.items] using
      (loc.bareDot h true).append_right [.punct .plusPlus, .punct .semicolon]
  case dec =>
    intro loc h level
    simpa [Stmt.items] using
      (loc.bareDot h true).append_right [.punct .minusMinus, .punct .semicolon]
  case read =>
    intro loc h level
    have hloc := (loc.bareDot h true).append_right [.punct .semicolon]
    simpa [Stmt.items] using (hloc.cons (.punct .readOp)).cons (.keyword .cin)
  case write =>
    intro expr h level
    have hexpr := (expr.bareDot h true).append_right [.punct .semicolon]
    simpa [Stmt.items] using (hexpr.cons (.punct .writeOp)).cons (.keyword .cout)
  case ifThen =>
    intro cond decls stmts ihdecls ihstmts h level
    simp only [Stmt.items]
    rcases Bool.or_eq_true_iff.mp h with hcond | hbody
    · exact bareDot_braced (.inl (bareDot_head hcond))
    · exact bareDot_braced (.inr (bareDot_block ihdecls ihstmts hbody _))
  case ifElse =>
    intro cond decls stmts decls' stmts' ihdecls ihstmts ihdecls' ihstmts' h level
    simp only [Stmt.items, kindsOf_append]
    rcases Bool.or_eq_true_iff.mp h with h | helse
    · rcases Bool.or_eq_true_iff.mp h with hcond | hthen
      · exact (bareDot_braced (.inl (bareDot_head hcond))).append_right _
      · exact (bareDot_braced
          (.inr (bareDot_block ihdecls ihstmts hthen _))).append_right _
    · exact (bareDot_braced
        (.inr (bareDot_block ihdecls' ihstmts' helse _))).append_left _
  case while_ =>
    intro cond decls stmts ihdecls ihstmts h level
    simp only [Stmt.items]
    rcases Bool.or_eq_true_iff.mp h with hcond | hbody
    · exact bareDot_braced (.inl (bareDot_head hcond))
    · exact bareDot_braced (.inr (bareDot_block ihdecls ihstmts hbody _))
  case call =>
    intro callee args h level
    have hcall : (Expr.call callee args).hasDot = true := by
      rw [Expr.hasDot, Expr.hasDotList_eq]
      exact h
    simpa [Stmt.items] using
      (Expr.bareDot hcall true).append_right [.punct .semicolon]
  case ret =>
    intro value h level
    cases value with
    | none => exact absurd h (by simp [Stmt.hasDot])
    | some value =>
        have hvalue := (value.bareDot h true).append_right [.punct .semicolon]
        simpa [Stmt.items] using hvalue.cons (.keyword .return_)

/-- A program with a field access is printed as a text that is no program. -/
theorem Program.not_derives_of_hasDot {program other : Program} {part : Derivation}
    (h : program.hasDot = true)
    (hkinds : part.kinds = kindsOf (Decl.itemsOfList 0 program.decls)) :
    ¬ DerivesProgram part other := by
  intro hpart
  obtain ⟨decl, hdecl, hdot⟩ := List.any_eq_true.mp h
  have hbare : BareDot (program.decls.flatMap fun decl => kindsOf (decl.items 0)) :=
    bareDot_flatMap hdecl (bareDot_items.1 decl hdot 0)
  obtain ⟨front, back, hsplit⟩ := hbare
  have hdotted := (hereditary_dotted.program hpart).1
  rw [hkinds, Decl.itemsOfList_eq, kindsOf_flatMap, hsplit] at hdotted
  exact not_dotted_of_paren front back hdotted

end MiniLang

/-
The layout of a printed tree: its items are tidy, whatever the tree, as long as its
leaves are words of the language and no name is linked.
-/
import MiniLang.Proofs.Grammar.ExprCompleteness
import MiniLang.Proofs.Grammar.Leaves
import MiniLang.Proofs.Print.Reading
import MiniLang.Tree.Induction

namespace MiniLang

/-- Whether an item may stand behind a name or a literal. -/
def PrintItem.trails : PrintItem → Bool
  | .token (.punct _) => true
  | .space count => count != 0
  | .newline => true
  | _ => false

/-- Tidy items that may stand behind a name or a literal. -/
def Trails (items : List PrintItem) : Prop :=
  Tidy items ∧ ∀ item ∈ items.head?, item.trails = true

/-- Tidy items that start with a token. -/
def Begins (items : List PrintItem) : Prop :=
  Tidy items ∧ ∃ kind rest, items = .token kind :: rest

/-- Tidy items that start the way a term does. -/
def Opens (items : List PrintItem) : Prop :=
  Tidy items ∧ ∃ kind rest, items = .token kind :: rest ∧ startsTerm kind = true

variable {items behind : List PrintItem}

theorem tidy_newline (h : Tidy items) : Tidy (.newline :: items) :=
  ⟨trivial, fun _ _ => rfl, h⟩

theorem tidy_space (count : Nat) (h : Tidy items) : Tidy (.space count :: items) :=
  ⟨trivial, fun _ _ => rfl, h⟩

theorem trails_newline (h : Tidy items) : Trails (.newline :: items) :=
  ⟨tidy_newline h, by simp [PrintItem.trails]⟩

theorem trails_space (h : Tidy items) : Trails (.space 1 :: items) :=
  ⟨tidy_space 1 h, by simp [PrintItem.trails]⟩

/-- A word may stand in front of layout and marks. -/
theorem tidy_token {kind : TokenKind} (hspelled : kind.Spelled)
    (hgrows : kind.grows = false) (h : Trails items) : Tidy (.token kind :: items) := by
  refine ⟨hspelled, ?_, h.1⟩
  intro next hnext
  have htrails := h.2 next hnext
  cases next with
  | token other =>
      cases other with
      | punct mark => simp [separable, hgrows, TokenKind.isWord]
      | _ => cases htrails
  | space count => exact htrails
  | newline => rfl
  | note type => cases htrails

theorem tidy_word (word : Keyword) (h : Trails items) : Tidy (printWord word :: items) :=
  tidy_token trivial rfl h

theorem opens_token {kind : TokenKind} (hspelled : kind.Spelled)
    (hstarts : startsTerm kind = true) (hgrows : kind.grows = false)
    (h : Trails items) : Opens (.token kind :: items) :=
  ⟨tidy_token hspelled hgrows h, kind, items, rfl, hstarts⟩

/-- A mark that cannot grow may stand in front of layout and marks. -/
theorem trails_mark (mark : Punct) (hgrows : mark.grows = false) (h : Trails items) :
    Trails (printMark mark :: items) :=
  ⟨tidy_token trivial hgrows h, by simp [printMark, PrintItem.trails]⟩

/-- Any mark may stand in front of a space. -/
theorem trails_mark_space (mark : Punct) (h : Tidy items) :
    Trails (printMark mark :: .space 1 :: items) := by
  refine ⟨⟨trivial, ?_, tidy_space 1 h⟩, by simp [printMark, PrintItem.trails]⟩
  intro next hnext
  obtain rfl : PrintItem.space 1 = next := by simpa using hnext
  rfl

/-- Any mark may stand in front of a term. -/
theorem trails_mark_opens (mark : Punct) (h : Opens items) :
    Trails (printMark mark :: items) := by
  obtain ⟨htidy, kind, rest, rfl, hstarts⟩ := h
  refine ⟨⟨trivial, ?_, htidy⟩, by simp [printMark, PrintItem.trails]⟩
  intro next hnext
  obtain rfl : PrintItem.token kind = next := by simpa using hnext
  have hlengthens : kind.lengthens = false := by
    cases kind with
    | punct other => cases other <;> first | rfl | exact absurd hstarts (by decide)
    | _ => rfl
  simp [separable, printMark, hlengthens, TokenKind.isWord]

theorem opens_leftParen (h : Opens items) : Opens (printMark .leftParen :: items) :=
  ⟨(trails_mark_opens .leftParen h).1, _, _, rfl, rfl⟩

theorem Ident.items_of_plain {id : Ident} (h : (Leaf.name id).Plain) :
    id.items = [.token (.ident id.name)] := by
  rw [Ident.items, h.2]
  rfl

theorem opens_ident {id : Ident} (h : (Leaf.name id).Plain) (hbehind : Trails behind) :
    Opens (id.items ++ behind) := by
  rw [Ident.items_of_plain h]
  exact opens_token h.1 rfl rfl hbehind

theorem Opens.begins (h : Opens items) : Begins items := by
  obtain ⟨htidy, kind, rest, hitems, _⟩ := h
  exact ⟨htidy, kind, rest, hitems⟩

/-- A mark that cannot grow may stand in front of any token. -/
theorem trails_mark_begins {mark : Punct} (hgrows : mark.grows = false)
    (h : Begins items) : Trails (printMark mark :: items) := by
  obtain ⟨htidy, kind, rest, rfl⟩ := h
  refine ⟨⟨trivial, ?_, htidy⟩, by simp [printMark, PrintItem.trails]⟩
  intro next hnext
  obtain rfl : PrintItem.token kind = next := by simpa using hnext
  simp [separable, printMark, TokenKind.isWord, TokenKind.grows, hgrows]

/-- Items that may stand in a list. -/
def Listable (part : List PrintItem) : Prop :=
  ∀ behind, Trails behind → Begins (part ++ behind)

theorem trails_others {parts : List (List PrintItem)}
    (hparts : ∀ part ∈ parts, Listable part) (hbehind : Trails behind) :
    Trails (printOthers parts ++ behind) := by
  induction parts with
  | nil => exact hbehind
  | cons part rest ih =>
      have hrest := ih fun other hother => hparts other (by simp [hother])
      rw [printOthers, List.flatMap_cons, ← printOthers, List.append_assoc]
      exact trails_mark_space .comma (hparts part (by simp) _ hrest).1

/-- A list in parentheses. -/
theorem trails_parens {parts : List (List PrintItem)}
    (hparts : ∀ part ∈ parts, Listable part) (hbehind : Trails behind) :
    Trails (printParens (printSeparated parts) ++ behind) := by
  have hclosing : Trails (printMark .rightParen :: behind) := trails_mark _ rfl hbehind
  rw [printParens, List.append_assoc, List.cons_append]
  cases parts with
  | nil => exact trails_mark _ rfl hclosing
  | cons part rest =>
      rw [printSeparated_cons, List.append_assoc]
      exact trails_mark_begins rfl (hparts part (by simp) _
        (trails_others (fun other hother => hparts other (by simp [hother])) hclosing))

/-- A printed expression is tidy in front of layout and marks, and starts the way a
term does. -/
theorem Expr.opens_items {expr : Expr} (h : ∀ leaf ∈ expr.leaves, leaf.Plain)
    (nested : Bool) (hbehind : Trails behind) :
    Opens (expr.items nested ++ behind) := by
  induction expr using Expr.induct generalizing nested behind with
  | int span value =>
      have hplain := h (.int span value) (by simp [Expr.leaves])
      exact opens_token hplain rfl rfl hbehind
  | str span text =>
      have hplain := h (.str span text) (by simp [Expr.leaves])
      exact opens_token hplain rfl rfl hbehind
  | bool span value => cases value <;> exact opens_token trivial rfl rfl hbehind
  | name id => exact opens_ident (h _ (by simp [Expr.leaves])) hbehind
  | dot loc field ih =>
      simp only [Expr.leaves, List.forall_mem_append, List.forall_mem_singleton] at h
      have hfield := opens_ident h.2 hbehind
      have hclosing := trails_mark .rightParen rfl
        (trails_mark_opens .dot hfield)
      simpa [Expr.items, printParens] using opens_leftParen (ih h.1 true hclosing)
  | assign lhs rhs ihlhs ihrhs =>
      simp only [Expr.leaves, List.forall_mem_append] at h
      have hinner : ∀ {behind}, Trails behind → Opens (lhs.items true ++
          (.space 1 :: printMark .equal :: .space 1 :: (rhs.items true ++ behind))) := by
        intro behind hbehind
        exact ihlhs h.1 true (trails_space
          (trails_mark_space .equal (ihrhs h.2 true hbehind).1).1)
      cases nested with
      | false => simpa [Expr.items] using hinner hbehind
      | true =>
          have hclosing := trails_mark .rightParen rfl hbehind
          simpa [Expr.items, printParens] using opens_leftParen (hinner hclosing)
  | call callee args ih =>
      simp only [Expr.leaves, Expr.leavesOfList_eq, List.forall_mem_cons,
        List.mem_flatMap] at h
      have hargs : ∀ part ∈ args.map (Expr.items true), Listable part := by
        intro part hpart behind hbehind
        obtain ⟨arg, harg, rfl⟩ := List.mem_map.mp hpart
        exact (ih arg harg (fun leaf hleaf => h.2 leaf ⟨arg, harg, hleaf⟩) true
          hbehind).begins
      rw [Expr.items, Expr.itemsOfArgs_eq, List.append_assoc]
      exact opens_ident h.1 (trails_parens hargs hbehind)
  | unary op operand ih =>
      have hclosing := trails_mark .rightParen rfl hbehind
      have hmark := trails_mark_opens op.punct (ih h true hclosing)
      have hopening : Opens (printMark .leftParen :: printMark op.punct ::
          (operand.items true ++ printMark .rightParen :: behind)) :=
        ⟨(trails_mark _ rfl hmark).1, _, _, rfl, rfl⟩
      simpa [Expr.items, printParens] using hopening
  | binary op lhs rhs ihlhs ihrhs =>
      simp only [Expr.leaves, List.forall_mem_append] at h
      have hclosing := trails_mark .rightParen rfl hbehind
      have hrhs := (ihrhs h.2 true hclosing).1
      simpa [Expr.items, printParens] using opens_leftParen (ihlhs h.1 true
        (trails_space (trails_mark_space op.punct hrhs).1))

theorem TypeNode.begins_items {type : TypeNode} (h : ∀ leaf ∈ type.leaves, leaf.Plain)
    (hbehind : Trails behind) : Begins (type.items ++ behind) := by
  cases type with
  | int | bool | void => exact ⟨tidy_word _ hbehind, _, _, rfl⟩
  | struct id =>
      have hid := opens_ident (h (.name id) (by simp [TypeNode.leaves])) hbehind
      exact ⟨tidy_word .struct (trails_space hid.1), _, _, rfl⟩

theorem begins_typed {type : TypeNode} {id : Ident}
    (htype : ∀ leaf ∈ type.leaves, leaf.Plain) (hid : (Leaf.name id).Plain)
    (hbehind : Trails behind) : Begins (printTyped type id ++ behind) := by
  rw [printTyped, List.append_assoc]
  exact type.begins_items htype (trails_space (opens_ident hid hbehind).1)

/-- A line of its own. -/
theorem tidy_line (level : Nat) {line : List PrintItem} (hline : Tidy (line ++ .newline
    :: behind)) : Tidy (printLine level line ++ behind) := by
  simpa [printLine] using tidy_space level hline

/-- Lines behind each other. -/
theorem tidy_flatMap {α : Type} {trees : List α} {itemsOf : α → List PrintItem}
    (h : ∀ tree ∈ trees, ∀ behind, Tidy behind → Tidy (itemsOf tree ++ behind))
    (hbehind : Tidy behind) : Tidy (trees.flatMap itemsOf ++ behind) := by
  induction trees with
  | nil => exact hbehind
  | cons tree rest ih =>
      rw [List.flatMap_cons, List.append_assoc]
      exact h tree (by simp) _ (ih fun other hother => h other (by simp [hother]))

/-- Whether the items of a declaration or a statement are tidy in front of any tidy
items. -/
def TidyLines (itemsOf : Nat → List PrintItem) : Prop :=
  ∀ level behind, Tidy behind → Tidy (itemsOf level ++ behind)

/-- The lines between the braces of a body. -/
theorem tidy_block {decls : List Decl} {stmts : List Stmt}
    (ihdecls : ∀ decl ∈ decls, (∀ leaf ∈ decl.leaves, leaf.Plain) →
      TidyLines fun level => decl.items level)
    (ihstmts : ∀ stmt ∈ stmts, (∀ leaf ∈ stmt.leaves, leaf.Plain) →
      TidyLines fun level => stmt.items level)
    (h : ∀ leaf ∈ (Block.mk decls stmts).leaves, leaf.Plain) (level : Nat)
    (hbehind : Tidy behind) : Tidy ((Block.mk decls stmts).items level ++ behind) := by
  simp only [Block.leaves, Decl.leavesOfList_eq, Stmt.leavesOfList_eq,
    List.forall_mem_append, List.mem_flatMap] at h
  obtain ⟨hdecls, hstmts⟩ := h
  rw [Block.items, Decl.itemsOfList_eq, Stmt.itemsOfList_eq, List.append_assoc]
  refine tidy_flatMap ?_ (tidy_flatMap ?_ hbehind)
  · intro decl hdecl behind
    exact ihdecls decl hdecl (fun leaf hleaf => hdecls leaf ⟨decl, hdecl, hleaf⟩) level
      behind
  · intro stmt hstmt behind
    exact ihstmts stmt hstmt (fun leaf hleaf => hstmts leaf ⟨stmt, hstmt, hleaf⟩) level
      behind

theorem tidy_braced (level : Nat) {head body : List PrintItem}
    (hhead : ∀ behind, Tidy behind →
      Tidy (head ++ .space 1 :: printMark .leftBrace :: .newline :: behind))
    (hbody : ∀ behind, Tidy behind → Tidy (body ++ behind)) (hbehind : Tidy behind) :
    Tidy (printBraced level head body ++ behind) := by
  have hclosing : Tidy (printLine level [printMark .rightBrace] ++ behind) :=
    tidy_line level (trails_mark _ rfl (trails_newline hbehind)).1
  rw [printBraced, List.append_assoc, List.append_assoc]
  refine tidy_line level ?_
  simpa using hhead _ (hbody _ hclosing)

theorem tidy_head {word : Keyword} {cond : Expr}
    (h : ∀ leaf ∈ cond.leaves, leaf.Plain) (hbehind : Trails behind) :
    Tidy (printHead word cond ++ behind) := by
  have hclosing := trails_mark .rightParen rfl hbehind
  have hcond := opens_leftParen (cond.opens_items h true hclosing)
  simpa [printHead, printParens] using tidy_word word (trails_space hcond.1)

theorem trails_brace (hbehind : Tidy behind) :
    Trails (.space 1 :: printMark .leftBrace :: .newline :: behind) :=
  trails_space (trails_mark _ rfl (trails_newline hbehind)).1

theorem trails_semicolon (hbehind : Tidy behind) :
    Trails (printMark .semicolon :: .newline :: behind) :=
  trails_mark _ rfl (trails_newline hbehind)

/-- An expression on a line of its own, in front of marks. -/
theorem tidy_expr_line {expr : Expr} (h : ∀ leaf ∈ expr.leaves, leaf.Plain)
    (inside : Bool) {marks : List PrintItem} (level : Nat)
    (hmarks : Trails (marks ++ .newline :: behind)) :
    Tidy (printLine level (expr.items inside ++ marks) ++ behind) := by
  apply tidy_line level
  simpa using (expr.opens_items h inside hmarks).1

theorem tidy_func {result : TypeNode} {id : Ident} {formals : List Formal}
    {decls : List Decl} {stmts : List Stmt}
    (ihdecls : ∀ decl ∈ decls, (∀ leaf ∈ decl.leaves, leaf.Plain) →
      TidyLines fun level => decl.items level)
    (ihstmts : ∀ stmt ∈ stmts, (∀ leaf ∈ stmt.leaves, leaf.Plain) →
      TidyLines fun level => stmt.items level)
    (h : ∀ leaf ∈ (Decl.func result id formals (.mk decls stmts)).leaves, leaf.Plain) :
    TidyLines fun level =>
      (Decl.func result id formals (.mk decls stmts)).items level := by
  intro level behind hbehind
  simp only [Decl.leaves, List.forall_mem_append, List.forall_mem_cons,
    List.mem_flatMap] at h
  obtain ⟨⟨hresult, hid, hformals⟩, hbody⟩ := h
  have hparams : ∀ part ∈ formals.map (fun formal => printTyped formal.type formal.id),
      Listable part := by
    intro part hpart behind hbehind
    obtain ⟨formal, hformal, rfl⟩ := List.mem_map.mp hpart
    have hleaves : ∀ leaf ∈ formal.leaves, leaf.Plain :=
      fun leaf hleaf => hformals leaf ⟨formal, hformal, hleaf⟩
    simp only [Formal.leaves, List.forall_mem_append, List.forall_mem_singleton]
      at hleaves
    exact begins_typed hleaves.1 hleaves.2 hbehind
  have hclosing : Tidy ([printMark .rightBrace, .newline, .newline] ++ behind) :=
    (trails_mark _ rfl (trails_newline (tidy_newline hbehind))).1
  have hlines := tidy_block ihdecls ihstmts hbody (level + indentWidth) hclosing
  simp only [Decl.items, List.append_assoc]
  apply tidy_line level
  simpa using (begins_typed hresult hid (trails_parens hparams (trails_brace hlines))).1

theorem tidy_struct {id : Ident} {fields : List Decl}
    (ihfields : ∀ field ∈ fields, (∀ leaf ∈ field.leaves, leaf.Plain) →
      TidyLines fun level => field.items level)
    (h : ∀ leaf ∈ (Decl.struct id fields).leaves, leaf.Plain) :
    TidyLines fun level => (Decl.struct id fields).items level := by
  intro level behind hbehind
  simp only [Decl.leaves, Decl.leavesOfList_eq, List.forall_mem_cons,
    List.mem_flatMap] at h
  have hclosing : Tidy
      (printLine level [printMark .rightBrace, printMark .semicolon, .newline]
        ++ behind) :=
    tidy_line level
      (trails_mark _ rfl (trails_mark _ rfl (trails_newline (tidy_newline hbehind)))).1
  have hfields : Tidy (fields.flatMap (Decl.items (level + indentWidth)) ++ _) :=
    tidy_flatMap (fun field hfield behind => ihfields field hfield
      (fun leaf hleaf => h.2 leaf ⟨field, hfield, hleaf⟩) (level + indentWidth) behind)
    hclosing
  have hid := opens_ident h.1 (trails_mark .leftBrace rfl (trails_newline hfields))
  simp only [Decl.items, Decl.itemsOfList_eq, List.append_assoc]
  apply tidy_line level
  simpa using tidy_word .struct (trails_space hid.1)

/-- A body behind a condition. -/
theorem tidy_guarded {word : Keyword} {cond : Expr} {decls : List Decl}
    {stmts : List Stmt}
    (ihdecls : ∀ decl ∈ decls, (∀ leaf ∈ decl.leaves, leaf.Plain) →
      TidyLines fun level => decl.items level)
    (ihstmts : ∀ stmt ∈ stmts, (∀ leaf ∈ stmt.leaves, leaf.Plain) →
      TidyLines fun level => stmt.items level)
    (hcond : ∀ leaf ∈ cond.leaves, leaf.Plain)
    (hbody : ∀ leaf ∈ (Block.mk decls stmts).leaves, leaf.Plain) :
    TidyLines fun level => printBraced level (printHead word cond)
      ((Block.mk decls stmts).items (level + indentWidth)) := by
  intro level behind hbehind
  apply tidy_braced level _ _ hbehind
  · exact fun behind hbehind => tidy_head hcond (trails_brace hbehind)
  · exact fun behind => tidy_block ihdecls ihstmts hbody _

/-- Printed declarations and statements are tidy in front of tidy items. -/
theorem tidyLines_items :
    (∀ decl : Decl, (∀ leaf ∈ decl.leaves, leaf.Plain) →
      TidyLines fun level => decl.items level) ∧
    ∀ stmt : Stmt, (∀ leaf ∈ stmt.leaves, leaf.Plain) →
      TidyLines fun level => stmt.items level := by
  apply Stmt.inductBoth
  case var =>
    intro type id h level behind hbehind
    simp only [Decl.leaves, List.forall_mem_append, List.forall_mem_singleton] at h
    simp only [Decl.items]
    apply tidy_line level
    simpa using (begins_typed h.1 h.2 (trails_semicolon hbehind)).1
  case func => exact fun _ _ _ _ _ => tidy_func
  case struct => exact fun _ _ => tidy_struct
  case assign =>
    intro expr h level behind hbehind
    exact tidy_expr_line h false level (trails_semicolon hbehind)
  case inc =>
    intro loc h level behind hbehind
    exact tidy_expr_line h true level
      (trails_mark .plusPlus rfl (trails_semicolon hbehind))
  case dec =>
    intro loc h level behind hbehind
    exact tidy_expr_line h true level
      (trails_mark .minusMinus rfl (trails_semicolon hbehind))
  case read =>
    intro loc h level behind hbehind
    simp only [Stmt.items]
    apply tidy_line level
    have hloc := (loc.opens_items h true (trails_semicolon hbehind)).1
    simpa using tidy_word .cin (trails_space (trails_mark_space .readOp hloc).1)
  case write =>
    intro expr h level behind hbehind
    simp only [Stmt.items]
    apply tidy_line level
    have hexpr := (expr.opens_items h true (trails_semicolon hbehind)).1
    simpa using tidy_word .cout (trails_space (trails_mark_space .writeOp hexpr).1)
  case ifThen =>
    intro cond decls stmts ihdecls ihstmts h
    obtain ⟨hcond, hbody⟩ := List.forall_mem_append.mp h
    exact tidy_guarded ihdecls ihstmts hcond hbody
  case ifElse =>
    intro cond decls stmts decls' stmts' ihdecls ihstmts ihdecls' ihstmts' h level behind
      hbehind
    simp only [Stmt.leaves, List.forall_mem_append] at h
    obtain ⟨⟨hcond, hthen⟩, helse⟩ := h
    have hword : ∀ behind, Tidy behind → Tidy ([printWord .else_]
        ++ .space 1 :: printMark .leftBrace :: .newline :: behind) :=
      fun behind hbehind => tidy_word .else_ (trails_brace hbehind)
    have hother := tidy_braced level hword
      (fun behind => tidy_block ihdecls' ihstmts' helse (level + indentWidth)) hbehind
    simp only [Stmt.items, List.append_assoc]
    exact tidy_guarded ihdecls ihstmts hcond hthen level _ hother
  case while_ =>
    intro cond decls stmts ihdecls ihstmts h
    obtain ⟨hcond, hbody⟩ := List.forall_mem_append.mp h
    exact tidy_guarded ihdecls ihstmts hcond hbody
  case call =>
    intro callee args h level behind hbehind
    have hleaves : ∀ leaf ∈ (Expr.call callee args).leaves, leaf.Plain := by
      simpa [Expr.leaves, Stmt.leaves] using h
    exact tidy_expr_line hleaves true level (trails_semicolon hbehind)
  case ret =>
    intro value h level behind hbehind
    cases value with
    | none => exact tidy_line level (tidy_word .return_ (trails_semicolon hbehind))
    | some value =>
        simp only [Stmt.items]
        apply tidy_line level
        have hvalue := (value.opens_items h true (trails_semicolon hbehind)).1
        simpa using tidy_word .return_ (trails_space hvalue)

/-- A printed program is tidy. -/
theorem Program.tidy_items {program : Program}
    (h : ∀ leaf ∈ program.leaves, leaf.Plain) :
    Tidy (Decl.itemsOfList 0 program.decls) := by
  rw [Decl.itemsOfList_eq, ← List.append_nil (program.decls.flatMap _)]
  refine tidy_flatMap ?_ trivial
  intro decl hdecl behind
  exact tidyLines_items.1 decl
    (fun leaf hleaf => h leaf (List.mem_flatMap.mpr ⟨decl, hdecl, hleaf⟩)) 0 behind

end MiniLang

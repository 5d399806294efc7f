/-
The round trip. A program is printed as a text without an issue, the text is a program
again unless a field is accessed, and the tree that it is read as differs in its places
only.
-/
import MiniLang.Proofs.Grammar.Leaves
import MiniLang.Proofs.Print.Layout
import MiniLang.Proofs.Print.Rereading
import Mathlib

namespace MiniLang

theorem DerivesType.rereads {part : Derivation} {type : TypeNode}
    (h : DerivesType part type) :
    Rereads DerivesType TypeNode.unplaced (kindsOf type.items) type := by
  intro tokens htokens
  cases h with
  | int _ =>
      simp only [TypeNode.items, kindsOf_word, kindsOf_nil, List.map_eq_cons_iff,
        List.map_eq_nil_iff] at htokens
      obtain ⟨token, _, rfl, htoken, rfl⟩ := htokens
      exact ⟨_, _, .int htoken, rfl, rfl⟩
  | bool _ =>
      simp only [TypeNode.items, kindsOf_word, kindsOf_nil, List.map_eq_cons_iff,
        List.map_eq_nil_iff] at htokens
      obtain ⟨token, _, rfl, htoken, rfl⟩ := htokens
      exact ⟨_, _, .bool htoken, rfl, rfl⟩
  | void _ =>
      simp only [TypeNode.items, kindsOf_word, kindsOf_nil, List.map_eq_cons_iff,
        List.map_eq_nil_iff] at htokens
      obtain ⟨token, _, rfl, htoken, rfl⟩ := htokens
      exact ⟨_, _, .void htoken, rfl, rfl⟩
  | struct _ _ =>
      simp only [TypeNode.items, kindsOf_word, kindsOf_space, kindsOf_ident,
        List.map_eq_cons_iff, List.map_eq_nil_iff] at htokens
      obtain ⟨token, _, rfl, htoken, word, _, rfl, hword, rfl⟩ := htokens
      exact ⟨_, _, .struct htoken hword, rfl, rfl⟩

/-- A type and a name behind it are read back. -/
theorem rereads_typed {part : Derivation} {type : TypeNode} (h : DerivesType part type)
    {id : Ident} (hid : id.symbol = none) {tokens : List Token}
    (htokens : tokens.map Token.kind = kindsOf (printTyped type id)) :
    ∃ typePart other word, DerivesType typePart other ∧ word.kind = .ident id.name ∧
      typePart.tokens ++ [word] = tokens ∧ other.unplaced = type.unplaced ∧
      (word.ident id.name).unplaced = id.unplaced := by
  simp only [printTyped, kindsOf_append, kindsOf_space, kindsOf_ident,
    List.map_eq_append_iff, List.map_eq_cons_iff, List.map_eq_nil_iff] at htokens
  obtain ⟨front, _, rfl, hfront, word, _, rfl, hword, rfl⟩ := htokens
  obtain ⟨typePart, other, htype, rfl, hsame⟩ := h.rereads front hfront
  exact ⟨typePart, other, word, htype, hword, rfl, hsame, Ident.unplaced_ident hid word⟩

theorem DerivesVarDecl.rereads {part : Derivation} {decl : Decl}
    (h : DerivesVarDecl part decl) (level : Nat) :
    Rereads DerivesVarDecl Decl.unplaced (kindsOf (decl.items level)) decl := by
  intro tokens htokens
  cases h with
  | @var typePart type word _ name htype _ _ =>
      simp only [Decl.items, kindsOf_line, kindsOf_append, kindsOf_mark, kindsOf_nil,
        List.map_eq_append_iff, List.map_eq_cons_iff, List.map_eq_nil_iff] at htokens
      obtain ⟨front, _, rfl, hfront, closing, _, rfl, hclosing, rfl⟩ := htokens
      obtain ⟨_, other, last, hother, hlast, rfl, htype', hid⟩ :=
        rereads_typed htype rfl hfront
      refine ⟨_, _, .var hother hlast hclosing, by simp, ?_⟩
      simp only [TypeNode.unplaced, Decl.unplaced, Decl.relabel] at htype' ⊢
      rw [htype', hid]

theorem DerivesFormal.rereads {part : Derivation} {formal : Formal}
    (h : DerivesFormal part formal) :
    Rereads DerivesFormal Formal.unplaced (kindsOf (printTyped formal.type formal.id))
      formal := by
  intro tokens htokens
  cases h with
  | formal htype _ =>
      obtain ⟨_, other, last, hother, hlast, rfl, htype', hid⟩ :=
        rereads_typed htype rfl htokens
      refine ⟨_, _, .formal hother hlast, by simp, ?_⟩
      simp only [TypeNode.unplaced, Formal.unplaced, Formal.relabel] at htype' ⊢
      rw [htype', hid]

/-- A body between braces is read back. -/
theorem BlockParts.Framed.rereads {parts : BlockParts} (h : parts.Framed) {level : Nat}
    (hstmts : ∀ stmt ∈ parts.stmts,
      Rereads DerivesStmt Stmt.unplaced (kindsOf (stmt.2.items level)) stmt.2)
    {tokens : List Token} (htokens : tokens.map Token.kind =
      .punct .leftBrace :: kindsOf (parts.block.items level)
        ++ [.punct .rightBrace]) :
    ∃ others : BlockParts, others.Framed ∧
      (∀ stmt ∈ others.stmts, DerivesStmt stmt.1 stmt.2) ∧
      others.derivation.tokens = tokens ∧
      others.block.unplaced = parts.block.unplaced := by
  simp only [BlockParts.block, Block.items, Decl.itemsOfList_eq, Stmt.itemsOfList_eq,
    kindsOf_append, kindsOf_flatMap, List.cons_append, List.append_assoc,
    List.map_eq_cons_iff, List.map_eq_append_iff, List.map_eq_nil_iff] at htokens
  obtain ⟨opening, _, rfl, hopening, front, _, rfl, hfront, back, _, rfl, hback,
    closing, _, rfl, hclosing, rfl⟩ := htokens
  have hdecls : ∀ decl ∈ parts.decls.map Prod.snd,
      Rereads DerivesVarDecl Decl.unplaced (kindsOf (decl.items level)) decl :=
    List.forall_mem_map.mpr fun decl hdecl => (h.decls decl hdecl).rereads level
  obtain ⟨decls, hderivesDecls, rfl, hdeclValues⟩ := Rereads.items hdecls hfront
  obtain ⟨stmts, hderivesStmts, rfl, hstmtValues⟩ :=
    Rereads.items (List.forall_mem_map.mpr hstmts) hback
  refine ⟨⟨opening, decls, stmts, closing⟩, ⟨hopening, hderivesDecls, hclosing⟩,
    hderivesStmts, by simp [BlockParts.derivation], ?_⟩
  simp only [Decl.unplaced, Stmt.unplaced] at hdeclValues hstmtValues
  simp only [BlockParts.block, Block.unplaced, Block.relabel, Decl.relabelList_eq,
    Stmt.relabelList_eq, hdeclValues, hstmtValues]

/-- A condition between parentheses and a body behind it are read back. -/
theorem rereads_guarded {word : Keyword} {cond : Expr} (hcond : cond.Rereads)
    {body : BlockParts} (hbody : body.Framed) {level : Nat}
    (hstmts : ∀ stmt ∈ body.stmts, Rereads DerivesStmt Stmt.unplaced
      (kindsOf (stmt.2.items (level + indentWidth))) stmt.2)
    {tokens : List Token} (htokens : tokens.map Token.kind = kindsOf
      (printBraced level (printHead word cond)
        (body.block.items (level + indentWidth)))) :
    ∃ first opening part other closing others, Token.kind first = .keyword word ∧
      Token.kind opening = .punct .leftParen ∧ DerivesExpr .assignment part other ∧
      Token.kind closing = .punct .rightParen ∧ BlockParts.Framed others ∧
      (∀ stmt ∈ others.stmts, DerivesStmt stmt.1 stmt.2) ∧
      first :: opening :: part.tokens ++ closing :: others.derivation.tokens = tokens ∧
      other.unplaced = cond.unplaced ∧ others.block.unplaced = body.block.unplaced := by
  rw [kindsOf_braced, List.append_assoc, List.map_eq_append_iff] at htokens
  obtain ⟨front, back, rfl, hfront, hback⟩ := htokens
  simp only [kindsOf_head, List.cons_append, List.map_eq_cons_iff,
    List.map_eq_append_iff, List.map_eq_nil_iff] at hfront
  obtain ⟨first, _, rfl, hfirst, opening, _, rfl, hopening, inner, _, rfl, hinner,
    closing, _, rfl, hclosing, rfl⟩ := hfront
  obtain ⟨part, other, hpart, rfl, hsame⟩ := hcond.inside inner hinner
  obtain ⟨others, hframed, hothers, rfl, hblock⟩ := hbody.rereads hstmts hback
  exact ⟨first, opening, part, other, closing, others, hfirst, hopening, hpart,
    hclosing, hframed, hothers, by simp, hsame, hblock⟩

/-- An expression with a semicolon behind it is read back. -/
theorem Rereads.closed {items : List PrintItem} {expr : Expr}
    (h : Rereads (DerivesExpr .assignment) Expr.unplaced (kindsOf items) expr)
    {level : Nat} {tokens : List Token} (htokens : tokens.map Token.kind =
      kindsOf (printLine level (items ++ [printMark .semicolon]))) :
    ∃ part other closing, DerivesExpr .assignment part other ∧
      Token.kind closing = .punct .semicolon ∧ part.tokens ++ [closing] = tokens ∧
      other.unplaced = expr.unplaced := by
  simp only [kindsOf_line, kindsOf_append, kindsOf_mark, kindsOf_nil,
    List.map_eq_cons_iff, List.map_eq_append_iff, List.map_eq_nil_iff] at htokens
  obtain ⟨inner, _, rfl, hinner, closing, _, rfl, hclosing, rfl⟩ := htokens
  obtain ⟨part, other, hpart, rfl, hsame⟩ := h inner hinner
  exact ⟨part, other, closing, hpart, hclosing, rfl, hsame⟩

/-- A tree between a word with a mark and a semicolon is read back. -/
theorem Rereads.headed {derives : Derivation → Expr → Prop} {items : List PrintItem}
    {expr : Expr} (h : Rereads derives Expr.unplaced (kindsOf items) expr)
    {word : Keyword} {mark : Punct} {level : Nat} {tokens : List Token}
    (htokens : tokens.map Token.kind = kindsOf (printLine level (printWord word
      :: .space 1 :: printMark mark :: .space 1 :: items ++ [printMark .semicolon]))) :
    ∃ first second part other closing, Token.kind first = .keyword word ∧
      Token.kind second = .punct mark ∧ derives part other ∧
      Token.kind closing = .punct .semicolon ∧
      first :: second :: part.tokens ++ [closing] = tokens ∧
      other.unplaced = expr.unplaced := by
  simp only [kindsOf_line, kindsOf_append, kindsOf_word, kindsOf_space, kindsOf_mark,
    kindsOf_nil, List.cons_append, List.map_eq_cons_iff, List.map_eq_append_iff,
    List.map_eq_nil_iff] at htokens
  obtain ⟨first, _, rfl, hfirst, second, _, rfl, hsecond, inner, _, rfl, hinner,
    closing, _, rfl, hclosing, rfl⟩ := htokens
  obtain ⟨part, other, hpart, rfl, hsame⟩ := h inner hinner
  exact ⟨first, second, part, other, closing, hfirst, hsecond, hpart, hclosing, rfl,
    hsame⟩

/-- A location with a mark and a semicolon behind it is read back. -/
theorem Rereads.marked {items : List PrintItem} {loc : Expr}
    (h : Rereads (DerivesExpr .assignment) Expr.unplaced (kindsOf items) loc)
    (hlocation : loc.isLocation = true) {mark : Punct} {level : Nat}
    {tokens : List Token} (htokens : tokens.map Token.kind =
      kindsOf (printLine level (items ++ [printMark mark, printMark .semicolon]))) :
    ∃ part other second closing, DerivesExpr .assignment part other ∧
      other.isLocation = true ∧ Token.kind second = .punct mark ∧
      Token.kind closing = .punct .semicolon ∧
      part.tokens ++ [second, closing] = tokens ∧ other.unplaced = loc.unplaced := by
  simp only [kindsOf_line, kindsOf_append, kindsOf_mark, kindsOf_nil,
    List.map_eq_cons_iff, List.map_eq_append_iff, List.map_eq_nil_iff] at htokens
  obtain ⟨inner, _, rfl, hinner, second, _, rfl, hsecond, closing, _, rfl, hclosing,
    rfl⟩ := htokens
  obtain ⟨part, other, hpart, rfl, hsame⟩ := h inner hinner
  exact ⟨part, other, second, closing, hpart,
    Expr.isLocation_of_unplaced_eq hsame hlocation, hsecond, hclosing, rfl, hsame⟩

theorem BlockParts.stmts_hasDot {parts : BlockParts}
    (h : parts.block.hasDot = false) : ∀ stmt ∈ parts.stmts, stmt.2.hasDot = false := by
  intro stmt hstmt
  obtain ⟨_, hstmts⟩ := Bool.or_eq_false_iff.mp h
  rw [Stmt.hasDotList_eq, List.any_eq_false] at hstmts
  simpa using hstmts stmt.2 (List.mem_map_of_mem hstmt)

/-- A printed statement without a field access is read back. -/
theorem DerivesStmt.rereads {part : Derivation} {stmt : Stmt}
    (h : DerivesStmt part stmt) (hdot : stmt.hasDot = false) (level : Nat) :
    Rereads DerivesStmt Stmt.unplaced (kindsOf (stmt.items level)) stmt := by
  induction h generalizing level with
  | read _ _ hloc _ =>
      intro tokens htokens
      obtain ⟨_, _, _, _, _, hword, hmark, hother, hclosing, rfl, hsame⟩ :=
        (hloc.rereads hdot).headed htokens
      refine ⟨_, _, .read hword hmark hother hclosing, by simp, ?_⟩
      simp only [Expr.unplaced, Stmt.unplaced, Stmt.relabel] at hsame ⊢
      rw [hsame]
  | write _ _ hexpr _ =>
      intro tokens htokens
      obtain ⟨_, _, _, _, _, hword, hmark, hother, hclosing, rfl, hsame⟩ :=
        (hexpr.rereads hdot).inside.headed htokens
      refine ⟨_, _, .write hword hmark hother hclosing, by simp, ?_⟩
      simp only [Expr.unplaced, Stmt.unplaced, Stmt.relabel] at hsame ⊢
      rw [hsame]
  | ifThen _ _ hcond _ hbody _ ih =>
      intro tokens htokens
      obtain ⟨hcondDot, hbodyDot⟩ := Bool.or_eq_false_iff.mp hdot
      obtain ⟨_, _, _, _, _, _, hfirst, hopening, hcond', hclosing, hframed, hothers, rfl,
        hsame, hblock⟩ := rereads_guarded (hcond.rereads hcondDot) hbody
          (fun stmt hstmt => ih stmt hstmt
            (BlockParts.stmts_hasDot hbodyDot stmt hstmt) _)
          htokens
      refine ⟨_, _, .ifThen hfirst hopening hcond' hclosing hframed hothers, by simp, ?_⟩
      simp only [Expr.unplaced, Block.unplaced, Stmt.unplaced, Stmt.relabel]
        at hsame hblock ⊢
      rw [hsame, hblock]
  | ifElse _ _ hcond _ hthen _ _ helse _ ihthen ihelse =>
      intro tokens htokens
      obtain ⟨hdot, helseDot⟩ := Bool.or_eq_false_iff.mp hdot
      obtain ⟨hcondDot, hthenDot⟩ := Bool.or_eq_false_iff.mp hdot
      rw [Stmt.items, kindsOf_append, List.map_eq_append_iff] at htokens
      obtain ⟨front, _, rfl, hfront, hback⟩ := htokens
      simp only [kindsOf_braced, kindsOf_word, kindsOf_nil, List.cons_append,
        List.nil_append, List.map_eq_cons_iff] at hback
      obtain ⟨other, back, rfl, hother, hback⟩ := hback
      obtain ⟨_, _, _, _, _, _, hfirst, hopening, hcond', hclosing, hthen', hthenStmts,
        rfl, hsame, hthenSame⟩ := rereads_guarded (hcond.rereads hcondDot) hthen
          (fun stmt hstmt => ihthen stmt hstmt
            (BlockParts.stmts_hasDot hthenDot stmt hstmt) _) hfront
      obtain ⟨_, helse', helseStmts, rfl, helseSame⟩ := helse.rereads
        (fun stmt hstmt => ihelse stmt hstmt
          (BlockParts.stmts_hasDot helseDot stmt hstmt) (level + indentWidth))
        (List.map_eq_cons_iff.mpr hback)
      refine ⟨_, _, .ifElse hfirst hopening hcond' hclosing hthen' hthenStmts hother
        helse' helseStmts, by simp, ?_⟩
      simp only [Expr.unplaced, Block.unplaced, Stmt.unplaced, Stmt.relabel]
        at hsame hthenSame helseSame ⊢
      rw [hsame, hthenSame, helseSame]
  | while_ _ _ hcond _ hbody _ ih =>
      intro tokens htokens
      obtain ⟨hcondDot, hbodyDot⟩ := Bool.or_eq_false_iff.mp hdot
      obtain ⟨_, _, _, _, _, _, hfirst, hopening, hcond', hclosing, hframed, hothers, rfl,
        hsame, hblock⟩ := rereads_guarded (hcond.rereads hcondDot) hbody
          (fun stmt hstmt => ih stmt hstmt
            (BlockParts.stmts_hasDot hbodyDot stmt hstmt) _)
          htokens
      refine ⟨_, _, .while_ hfirst hopening hcond' hclosing hframed hothers, by simp, ?_⟩
      simp only [Expr.unplaced, Block.unplaced, Stmt.unplaced, Stmt.relabel]
        at hsame hblock ⊢
      rw [hsame, hblock]
  | retNone _ _ =>
      intro tokens htokens
      simp only [Stmt.items, kindsOf_line, kindsOf_word, kindsOf_mark, kindsOf_nil,
        List.map_eq_cons_iff, List.map_eq_nil_iff] at htokens
      obtain ⟨word, _, rfl, hword, closing, _, rfl, hclosing, rfl⟩ := htokens
      exact ⟨_, _, .retNone hword hclosing, by simp, rfl⟩
  | retSome _ hvalue _ =>
      intro tokens htokens
      simp only [Stmt.items, kindsOf_line, kindsOf_append, kindsOf_word, kindsOf_space,
        kindsOf_mark, kindsOf_nil, List.cons_append, List.map_eq_cons_iff,
        List.map_eq_append_iff, List.map_eq_nil_iff] at htokens
      obtain ⟨word, _, rfl, hword, inner, _, rfl, hinner, closing, _, rfl, hclosing,
        rfl⟩ := htokens
      obtain ⟨valuePart, other, hother, rfl, hsame⟩ :=
        (hvalue.rereads hdot).inside inner hinner
      refine ⟨_, _, .retSome hword hother hclosing, by simp, ?_⟩
      simp only [Expr.unplaced, Stmt.unplaced, Stmt.relabel, Option.map_some] at hsame ⊢
      rw [hsame]
  | assign hexpr _ =>
      intro tokens htokens
      rw [Stmt.items] at htokens
      obtain ⟨exprPart, other, closing, hother, hclosing, rfl, hsame⟩ :=
        (hexpr.rereads hdot).alone.closed htokens
      cases other with
      | assign lhs rhs =>
          refine ⟨_, _, .assign hother hclosing, by simp, ?_⟩
          simp only [Expr.unplaced, Stmt.unplaced, Stmt.relabel] at hsame ⊢
          rw [hsame]
      | _ => cases hsame
  | @call _ callee args _ hexpr _ =>
      intro tokens htokens
      rw [Stmt.items] at htokens
      have hcallDot : (Expr.call callee args).hasDot = false :=
        (Expr.hasDotList_eq args).trans hdot
      obtain ⟨exprPart, other, closing, hother, hclosing, rfl, hsame⟩ :=
        (hexpr.rereads hcallDot).inside.closed htokens
      cases other with
      | call callee args =>
          refine ⟨_, _, .call hother hclosing, by simp, ?_⟩
          simp only [Expr.unplaced, Expr.relabel, Expr.relabelList_eq, Stmt.unplaced,
            Stmt.relabel, Expr.call.injEq] at hsame ⊢
          rw [hsame.1, hsame.2]
      | _ => cases hsame
  | inc hexpr hlocation _ _ =>
      intro tokens htokens
      obtain ⟨_, _, _, _, hother, hloc, hmark, hclosing, rfl, hsame⟩ :=
        (hexpr.rereads hdot).inside.marked hlocation htokens
      refine ⟨_, _, .inc hother hloc hmark hclosing, by simp, ?_⟩
      simp only [Expr.unplaced, Stmt.unplaced, Stmt.relabel] at hsame ⊢
      rw [hsame]
  | dec hexpr hlocation _ _ =>
      intro tokens htokens
      obtain ⟨_, _, _, _, hother, hloc, hmark, hclosing, rfl, hsame⟩ :=
        (hexpr.rereads hdot).inside.marked hlocation htokens
      refine ⟨_, _, .dec hother hloc hmark hclosing, by simp, ?_⟩
      simp only [Expr.unplaced, Stmt.unplaced, Stmt.relabel] at hsame ⊢
      rw [hsame]

theorem DerivesBlock.rereads {part : Derivation} {block : Block}
    (h : DerivesBlock part block) (hdot : block.hasDot = false) {level : Nat}
    {tokens : List Token} (htokens : tokens.map Token.kind =
      .punct .leftBrace :: kindsOf (block.items level) ++ [.punct .rightBrace]) :
    ∃ other otherBlock, DerivesBlock other otherBlock ∧ other.tokens = tokens ∧
      otherBlock.unplaced = block.unplaced := by
  cases h with
  | block hframed hstmts =>
      obtain ⟨others, hothers, hotherStmts, htokens', hsame⟩ := hframed.rereads
        (fun stmt hstmt => (hstmts stmt hstmt).rereads
          (BlockParts.stmts_hasDot hdot stmt hstmt) level) htokens
      exact ⟨_, _, .block hothers hotherStmts, htokens', hsame⟩

theorem TypeNode.plain_of_unplaced_eq {type other : TypeNode}
    (h : other.unplaced = type.unplaced) (hplain : ∀ id, type ≠ .struct id) :
    ∀ id, other ≠ .struct id := by
  rintro id rfl
  cases type with
  | struct id => exact hplain id rfl
  | _ => exact absurd h nofun

/-- A printed declaration without a field access is read back. -/
theorem DerivesDecl.rereads {part : Derivation} {decl : Decl}
    (h : DerivesDecl part decl) (hdot : decl.hasDot = false) :
    Rereads DerivesDecl Decl.unplaced (kindsOf (decl.items 0)) decl := by
  intro tokens htokens
  cases h with
  | @struct _ _ _ _ _ name fields _ _ _ hnonempty hfields _ _ =>
      simp only [Decl.items, Decl.itemsOfList_eq, kindsOf_append, kindsOf_line,
        kindsOf_word, kindsOf_space, kindsOf_ident, kindsOf_mark, kindsOf_newline,
        kindsOf_nil, kindsOf_flatMap, List.cons_append, List.append_assoc,
        List.nil_append, List.map_eq_cons_iff, List.map_eq_append_iff,
        List.map_eq_nil_iff] at htokens
      obtain ⟨first, _, rfl, hfirst, last, _, rfl, hlast, opening, _, rfl, hopening,
        inner, _, rfl, hinner, closing, _, rfl, hclosing, stop, _, rfl, hstop, rfl⟩ :=
        htokens
      have hreads : ∀ field ∈ fields.map Prod.snd, Rereads DerivesVarDecl Decl.unplaced
          (kindsOf (field.items (0 + indentWidth))) field :=
        List.forall_mem_map.mpr fun field hfield => (hfields field hfield).rereads _
      obtain ⟨others, hothers, rfl, hsame⟩ := Rereads.items hreads hinner
      have hmore : others ≠ [] := by
        rintro rfl
        exact hnonempty (by simpa using hsame.symm)
      refine ⟨_, _, .struct hfirst hlast hopening hmore hothers hclosing hstop, by simp,
        ?_⟩
      simp only [Decl.unplaced, Decl.relabel, Decl.relabelList_eq] at hsame ⊢
      rw [hsame]
      rfl
  | var hpart =>
      obtain ⟨varPart, other, hother, rfl, hsame⟩ := hpart.rereads 0 tokens htokens
      exact ⟨_, other, .var hother, by simp, hsame⟩
  | @func _ body result word _ _ name formals block hresult hplain _ _ _ hformals _
      hbody =>
      have hkinds : kindsOf ((Decl.func result (word.ident name) formals.values
          block).items 0) = kindsOf (printTyped result (word.ident name)) ++
            .punct .leftParen :: (kindsOf (printSeparated (formals.values.map
              fun formal => printTyped formal.type formal.id)) ++
            .punct .rightParen :: (.punct .leftBrace ::
              kindsOf (block.items (0 + indentWidth)) ++ [.punct .rightBrace])) := by
        simp [Decl.items]
      rw [hkinds, List.map_eq_append_iff] at htokens
      obtain ⟨front, _, rfl, hfront, hback⟩ := htokens
      obtain ⟨opening, _, rfl, hopening, hback⟩ := List.map_eq_cons_iff.mp hback
      obtain ⟨inner, _, rfl, hinner, hclose⟩ := List.map_eq_append_iff.mp hback
      obtain ⟨closing, _, rfl, hclosing, hblock⟩ := List.map_eq_cons_iff.mp hclose
      obtain ⟨_, result', last, hresult', hlast, rfl, hresultSame, hidSame⟩ :=
        rereads_typed hresult rfl hfront
      have hreads : ∀ formal ∈ formals.values, Rereads DerivesFormal Formal.unplaced
          (kindsOf (printTyped formal.type formal.id)) formal := by
        intro formal hformal
        obtain ⟨member, hmember, rfl⟩ := Listing.exists_member hformal
        exact (hformals member hmember).rereads
      obtain ⟨others, hseparated, hothers, rfl, hformalsSame⟩ :=
        Rereads.listing hreads hinner
      obtain ⟨_, block', hbody', rfl, hblockSame⟩ := hbody.rereads hdot hblock
      refine ⟨_, _, .func hresult' (TypeNode.plain_of_unplaced_eq hresultSame hplain)
        hlast hopening hseparated hothers hclosing hbody', by simp, ?_⟩
      simp only [TypeNode.unplaced, Formal.unplaced, Block.unplaced, Decl.unplaced,
        Decl.relabel] at hresultSame hformalsSame hblockSame ⊢
      rw [hresultSame, hidSame, hformalsSame, hblockSame]

/-- A printed program without a field access is read back. -/
theorem DerivesProgram.rereads {part : Derivation} {program : Program}
    (h : DerivesProgram part program) (hdot : program.hasDot = false) :
    Rereads DerivesProgram Program.unplaced (kindsOf (Decl.itemsOfList 0 program.decls))
      program := by
  intro tokens htokens
  cases h with
  | @program decls hdecls =>
      rw [Decl.itemsOfList_eq, kindsOf_flatMap] at htokens
      rw [Program.hasDot, List.any_eq_false] at hdot
      have hreads : ∀ decl ∈ decls.map Prod.snd,
          Rereads DerivesDecl Decl.unplaced (kindsOf (decl.items 0)) decl :=
        List.forall_mem_map.mpr fun decl hdecl => (hdecls decl hdecl).rereads
          (by simpa using hdot decl.2 (List.mem_map_of_mem hdecl))
      obtain ⟨others, hothers, rfl, hsame⟩ := Rereads.items hreads htokens
      refine ⟨_, _, .program hothers, by simp, ?_⟩
      simp only [Decl.unplaced, Program.unplaced, Program.relabel] at hsame ⊢
      rw [hsame]

/-- The round trip: the text of a program has no issue, it is a program unless a field
is accessed, and it is read as the program that was printed, but for its places. -/
theorem parseTokens_print (source : String) (program : Program)
    (hparse : parseTokens (scan source).tokens = .ok program) :
    (scan program.print).issues = [] ∧
    ((∃ other, parseTokens (scan program.print).tokens = .ok other) ↔
      program.hasDot = false) ∧
    ∀ other, parseTokens (scan program.print).tokens = .ok other →
      other.unplaced = program.unplaced ∧ other.print = program.print := by
  obtain ⟨part, hpart, htokens⟩ := parseTokens_scan_iff.mp hparse
  have htidy := program.tidy_items (plain_of_mem_leaves hpart htokens)
  have hkinds : (wordsOf program.print).map Token.kind =
      kindsOf (Decl.itemsOfList 0 program.decls) := kinds_of_tidy htidy
  have hreread : program.hasDot = false → ∃ other,
      parseTokens (scan program.print).tokens = .ok other ∧
        other.unplaced = program.unplaced := by
    intro hdot
    obtain ⟨otherPart, other, hother, hsame, hunplaced⟩ :=
      hpart.rereads hdot (wordsOf program.print) hkinds
    exact ⟨other, parseTokens_scan_iff.mpr ⟨otherPart, hother, hsame⟩, hunplaced⟩
  have hdotless : ∀ other, parseTokens (scan program.print).tokens = .ok other →
      program.hasDot = false := by
    intro other hother
    obtain ⟨otherPart, hderives, hsame⟩ := parseTokens_scan_iff.mp hother
    cases hdot : program.hasDot with
    | false => rfl
    | true =>
        have hotherKinds : otherPart.kinds =
            kindsOf (Decl.itemsOfList 0 program.decls) := by
          rw [Derivation.kinds, hsame, hkinds]
        exact absurd hderives (Program.not_derives_of_hasDot hdot hotherKinds)
  refine ⟨issues_of_tidy htidy, ⟨?_, ?_⟩, ?_⟩
  · rintro ⟨other, hother⟩
    exact hdotless other hother
  · intro hdot
    obtain ⟨other, hother, _⟩ := hreread hdot
    exact ⟨other, hother⟩
  · intro other hother
    obtain ⟨reread, hreread, hsame⟩ := hreread (hdotless other hother)
    obtain rfl : other = reread := by simpa using hother.symm.trans hreread
    refine ⟨hsame, ?_⟩
    rw [← Program.print_unplaced other, hsame, Program.print_unplaced]

theorem parseTokens_print_sum : ∃ program other,
    parseTokens (scan "int x; void f() { x = -x + 1; }").tokens = .ok program ∧
    parseTokens (scan program.print).tokens = .ok other ∧
    other.unplaced = program.unplaced := by
  let x (column : Nat) : Ident := ⟨"x", Span.ofLength ⟨1, column⟩ 1, none⟩
  let sum : Expr := .binary .plus (.unary .neg (.name (x 24)))
    (.int (Span.ofLength ⟨1, 28⟩ 1) 1)
  have hparse : parseTokens (scan "int x; void f() { x = -x + 1; }").tokens =
      .ok ⟨[.var .int (x 5), .func .void ⟨"f", Span.ofLength ⟨1, 13⟩ 1, none⟩ []
        (.mk [] [.assign (.assign (.name (x 19)) sum)])]⟩ := by cbv
  obtain ⟨_, hreads, hsame⟩ := parseTokens_print _ _ hparse
  obtain ⟨other, hother⟩ := hreads.mpr rfl
  exact ⟨_, other, hparse, hother, (hsame other hother).1⟩

end MiniLang

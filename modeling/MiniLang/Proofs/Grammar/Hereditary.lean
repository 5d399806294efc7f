/-
What holds of every derivation because it holds of its parts.
-/
import MiniLang.Proofs.Grammar.Progress

namespace MiniLang

/-- Whether a property holds of single tokens and of locations, and of every phrase whose
parts have it. Of the tokens that are no location, dots and the end of the file are left
out. -/
structure Hereditary (P : Derivation → Prop) : Prop where
  leaf : ∀ token : Token, token.kind ≠ .eof → token.kind ≠ .punct .dot → P (.leaf token)
  loc : ∀ {part : Derivation} {loc : Expr}, DerivesLoc part loc → P part
  node : ∀ {category : Category} {parts : List Derivation}, (∀ part ∈ parts, P part) →
    P (.node category parts)

section Hereditary

variable {P : Derivation → Prop} (hP : Hereditary P)

include hP

theorem Hereditary.word {token : Token} {word : Keyword}
    (h : token.kind = .keyword word) : P (.leaf token) :=
  hP.leaf token (by simp [h]) (by simp [h])

theorem Hereditary.ident {token : Token} {name : String}
    (h : token.kind = .ident name) : P (.leaf token) :=
  hP.leaf token (by simp [h]) (by simp [h])

theorem Hereditary.mark {token : Token} {mark : Punct} (h : token.kind = .punct mark)
    (hmark : mark ≠ .dot) : P (.leaf token) :=
  hP.leaf token (by simp [h]) (by simpa [h] using hmark)

theorem Hereditary.listing {α : Type} {listing : Listing α}
    (hseparated : listing.Separated)
    (hmembers : ∀ member ∈ listing.members, P member.1) :
    ∀ part ∈ listing.parts, P part := by
  cases listing with
  | empty => simp [Listing.parts]
  | items part value others =>
      simp only [Listing.members, List.forall_mem_cons, List.forall_mem_map] at hmembers
      obtain ⟨hpart, hothers⟩ := hmembers
      simp only [Listing.parts, List.forall_mem_cons, List.mem_flatMap]
      refine ⟨hpart, ?_⟩
      rintro inner ⟨other, hother, hinner⟩
      simp only [List.mem_cons, List.not_mem_nil, or_false] at hinner
      rcases hinner with rfl | rfl
      · exact hP.mark (hseparated other hother) (by simp)
      · exact hothers other hother

theorem Hereditary.expr {level : Level} {part : Derivation} {expr : Expr}
    (h : DerivesExpr level part expr) : P part := by
  induction h with
  | plain _ ih | uncompared _ ih | unmarked _ ih => exact hP.node (by simpa using ih)
  | assign _ _ hmark _ ihtarget ihvalue =>
      exact hP.node (by simp [ihtarget, hP.mark hmark, ihvalue])
  | chain hlevel _ hmarks _ ihfirst ihothers =>
      refine hP.node ?_
      simp only [List.forall_mem_cons, List.mem_flatMap]
      refine ⟨ihfirst, ?_⟩
      rintro inner ⟨other, hother, hinner⟩
      simp only [Operand.parts, List.mem_cons, List.not_mem_nil, or_false] at hinner
      rcases hinner with rfl | rfl
      · exact hP.mark (Level.punct_of_operator? hlevel (hmarks other hother))
          (BinaryOp.punct_ne_dot _)
      · exact ihothers other hother
  | @compared _ _ mark _ _ _ _ hmark _ ihleft ihright =>
      have hleaf : P (.leaf mark) :=
        hP.mark (punct_of_chooseRelational hmark) (BinaryOp.punct_ne_dot _)
      exact hP.node (by simp [ihleft, hleaf, ihright])
  | @marked mark _ _ _ hmark _ ih =>
      have hleaf : P (.leaf mark) :=
        hP.mark (punct_of_chooseUnary hmark) (UnaryOp.punct_ne_dot _)
      exact hP.node (by simp [hleaf, ih])
  | @int token _ htoken | @str token _ htoken =>
      have hleaf : P (.leaf token) := hP.leaf token (by simp [htoken]) (by simp [htoken])
      exact hP.node (by simpa using hleaf)
  | trueWord htoken | falseWord htoken => exact hP.node (by simp [hP.word htoken])
  | paren hopening _ hclosing ih =>
      exact hP.node (by simp [hP.mark hopening, ih, hP.mark hclosing])
  | call hword hopening hseparated _ hclosing ih =>
      have hcall := hP.listing hseparated ih
      refine hP.node (List.forall_mem_singleton.mpr (hP.node ?_))
      simp only [List.cons_append, List.forall_mem_cons, List.forall_mem_append]
      exact ⟨hP.ident hword, hP.mark hopening (by simp), hcall,
        hP.mark hclosing (by simp), by simp⟩
  | loc hpart => exact hP.node (by simpa using hP.loc hpart)

theorem Hereditary.type {part : Derivation} {type : TypeNode}
    (h : DerivesType part type) : P part := by
  cases h with
  | int htoken | bool htoken | void htoken => exact hP.node (by simp [hP.word htoken])
  | struct htoken hword => exact hP.node (by simp [hP.word htoken, hP.ident hword])

theorem Hereditary.varDecl {part : Derivation} {decl : Decl}
    (h : DerivesVarDecl part decl) : P part := by
  cases h with
  | var htype hword hclosing =>
      exact hP.node (by simp [hP.type htype, hP.ident hword, hP.mark hclosing])

theorem Hereditary.formal {part : Derivation} {formal : Formal}
    (h : DerivesFormal part formal) : P part := by
  cases h with
  | formal htype hword => exact hP.node (by simp [hP.type htype, hP.ident hword])

theorem Hereditary.framed {parts : BlockParts} (h : parts.Framed)
    (hstmts : ∀ stmt ∈ parts.stmts, P stmt.1) : P parts.derivation := by
  refine hP.node ?_
  simp only [List.cons_append, List.forall_mem_cons, List.forall_mem_append,
    List.forall_mem_map]
  exact ⟨hP.mark h.opening (by simp),
    ⟨fun decl hdecl => hP.varDecl (h.decls decl hdecl), hstmts⟩,
    hP.mark h.closing (by simp), by simp⟩

theorem Hereditary.stmt {part : Derivation} {stmt : Stmt}
    (h : DerivesStmt part stmt) : P part := by
  induction h with
  | read hword hmark hloc hclosing =>
      exact hP.node (by
        simp [hP.word hword, hP.mark hmark, hP.loc hloc, hP.mark hclosing])
  | write hword hmark hexpr hclosing =>
      exact hP.node (by
        simp [hP.word hword, hP.mark hmark, hP.expr hexpr, hP.mark hclosing])
  | ifThen hword hopening hcond hclosing hbody _ ih
  | while_ hword hopening hcond hclosing hbody _ ih =>
      exact hP.node (by
        simp [hP.word hword, hP.mark hopening, hP.expr hcond, hP.mark hclosing,
          hP.framed hbody ih])
  | ifElse hword hopening hcond hclosing hthen _ hother helse _ ihthen ihelse =>
      exact hP.node (by
        simp [hP.word hword, hP.mark hopening, hP.expr hcond, hP.mark hclosing,
          hP.framed hthen ihthen, hP.word hother, hP.framed helse ihelse])
  | retNone hword hclosing =>
      exact hP.node (by simp [hP.word hword, hP.mark hclosing])
  | retSome hword hvalue hclosing =>
      exact hP.node (by simp [hP.word hword, hP.expr hvalue, hP.mark hclosing])
  | assign hexpr hclosing | call hexpr hclosing =>
      exact hP.node (by simp [hP.expr hexpr, hP.mark hclosing])
  | inc hexpr _ hmark hclosing | dec hexpr _ hmark hclosing =>
      exact hP.node (by simp [hP.expr hexpr, hP.mark hmark, hP.mark hclosing])

theorem Hereditary.decl {part : Derivation} {decl : Decl}
    (h : DerivesDecl part decl) : P part := by
  cases h with
  | struct htoken hword hopening _ hfields hclosing hstop =>
      refine hP.node ?_
      simp only [List.cons_append, List.forall_mem_cons, List.forall_mem_append,
        List.forall_mem_map]
      exact ⟨hP.word htoken, hP.ident hword, hP.mark hopening (by simp),
        fun field hfield => hP.varDecl (hfields field hfield),
        hP.mark hclosing (by simp), hP.mark hstop (by simp), by simp⟩
  | var hpart => exact hP.node (by simpa using hP.varDecl hpart)
  | func hresult _ hword hopening hseparated hformals hclosing hbody =>
      have hlist := hP.listing hseparated
        fun formal hformal => hP.formal (hformals formal hformal)
      obtain ⟨hframed, hstmts⟩ := hbody
      have hblock := hP.framed hframed fun stmt hstmt => hP.stmt (hstmts stmt hstmt)
      refine hP.node ?_
      simp only [List.cons_append, List.forall_mem_cons, List.forall_mem_append]
      exact ⟨hP.type hresult, hP.ident hword, hP.mark hopening (by simp), hlist,
        hP.mark hclosing (by simp), hblock, by simp⟩

/-- What is hereditary holds of every program. -/
theorem Hereditary.program {part : Derivation} {program : Program}
    (h : DerivesProgram part program) : P part := by
  cases h with
  | program hdecls =>
      refine hP.node ?_
      simp only [List.forall_mem_map]
      exact fun decl hdecl => hP.decl (hdecls decl hdecl)

end Hereditary

end MiniLang

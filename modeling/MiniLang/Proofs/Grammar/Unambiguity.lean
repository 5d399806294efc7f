/-
Unambiguity of the grammar of statements, declarations and programs.
-/
import MiniLang.Proofs.Grammar.Completeness
import MiniLang.Proofs.Grammar.ExprUnambiguity

namespace MiniLang

/-- Phrases of a kind behind each other, where no phrase can stand behind them. -/
theorem Parted.phrases {α : Type} {Ends Inner : List Token → Prop}
    {items items' : List (Derivation × α)} (hends : ∀ rest, Ends rest → Inner rest)
    (hitems : ∀ item ∈ items, Continues Ends Inner [item.1])
    (hitems' : ∀ item ∈ items', Continues Ends Inner [item.1])
    (hparted : ∀ item ∈ items, ∀ item' ∈ items', Parted Inner [item.1] [item'.1]) :
    Parted Ends (items.map Prod.fst) (items'.map Prod.fst) := by
  rw [List.map_eq_flatMap, List.map_eq_flatMap]
  exact Parted.flatMap hends hitems hitems' hparted

/-- A struct type has two words, and every other one has one. -/
theorem DerivesType.eq_node {part : Derivation} {type : TypeNode}
    (h : DerivesType part type) :
    ∃ token more, part = .node .type (.leaf token :: more) ∧
      if token.kind = .keyword .struct then ∃ word, more = [.leaf word]
      else more = [] := by
  cases h with
  | @int token htoken | @bool token htoken | @void token htoken =>
      exact ⟨token, [], rfl, by simp [htoken]⟩
  | @struct token word name htoken hword =>
      exact ⟨token, [.leaf word], rfl, by simp [htoken]⟩

theorem DerivesType.parted {part part' : Derivation} {type type' : TypeNode}
    (h : DerivesType part type) (h' : DerivesType part' type') :
    Parted (fun _ => True) [part] [part'] := by
  obtain ⟨token, more, rfl, hmore⟩ := h.eq_node
  obtain ⟨token', more', rfl, hmore'⟩ := h'.eq_node
  by_cases hkind : token.kind = token'.kind
  · refine Parted.node _ (Parted.leaf _ _ ?_)
    rw [hkind] at hmore
    by_cases hstruct : token'.kind = .keyword .struct
    · rw [if_pos hstruct] at hmore hmore'
      obtain ⟨word, rfl⟩ := hmore
      obtain ⟨word', rfl⟩ := hmore'
      exact Parted.leaf _ _ Parted.nil
    · rw [if_neg hstruct] at hmore hmore'
      rw [hmore, hmore']
      exact Parted.nil
  · exact Parted.of_heads token token' (by simp) (by simp) hkind

theorem DerivesVarDecl.parted {part part' : Derivation} {decl decl' : Decl}
    (h : DerivesVarDecl part decl) (h' : DerivesVarDecl part' decl') :
    Parted (fun _ => True) [part] [part'] := by
  cases h with
  | var htype =>
    cases h' with
    | var htype' =>
        exact Parted.node _ (Parted.cons (htype.parted htype')
          (Parted.leaf _ _ (Parted.leaf _ _ Parted.nil)) (fun _ _ => trivial)
          fun _ _ => trivial)

theorem DerivesFormal.parted {part part' : Derivation} {formal formal' : Formal}
    (h : DerivesFormal part formal) (h' : DerivesFormal part' formal') :
    Parted (fun _ => True) [part] [part'] := by
  cases h with
  | formal htype =>
    cases h' with
    | formal htype' =>
        exact Parted.node _ (Parted.cons (htype.parted htype')
          (Parted.leaf _ _ Parted.nil) (fun _ _ => trivial) fun _ _ => trivial)

theorem DerivesVarDecl.continues {part : Derivation} {decl : Decl}
    (h : DerivesVarDecl part decl) {Ends : List Token → Prop}
    (hends : ∀ token rest, startsType token.kind = true → ¬ Ends (token :: rest)) :
    Continues Ends (fun _ => True) [part] := by
  intro rest
  obtain ⟨token, tokens, htokens, hstart⟩ := h.head
  refine ⟨trivial, ?_⟩
  rw [List.flatMap_cons, List.flatMap_nil, List.append_nil, htokens]
  exact hends token _ hstart

theorem DerivesStmt.startsStmt {part : Derivation} {stmt : Stmt}
    (h : DerivesStmt part stmt) (rest : List Token) :
    startsStmt (nextToken ([part].flatMap Derivation.tokens ++ rest)).kind = true := by
  obtain ⟨token, tokens, htokens, hstart⟩ := h.head
  rw [List.flatMap_cons, List.flatMap_nil, List.append_nil, htokens]
  exact hstart

/-- A block has one derivation at most if its statements have. -/
theorem BlockParts.parted {parts parts' : BlockParts} (hframed : parts.Framed)
    (hframed' : parts'.Framed)
    (hstmts : ∀ stmt ∈ parts.stmts, DerivesStmt stmt.1 stmt.2)
    (hstmts' : ∀ stmt ∈ parts'.stmts, DerivesStmt stmt.1 stmt.2)
    (hparted : ∀ stmt ∈ parts.stmts, ∀ stmt' ∈ parts'.stmts,
      Parted StmtEnds [stmt.1] [stmt'.1]) :
    Parted (fun _ => True) [parts.derivation] [parts'.derivation] := by
  let Closes (rest : List Token) : Prop := (nextToken rest).kind = .punct .rightBrace
  let Untyped (rest : List Token) : Prop := startsType (nextToken rest).kind = false
  have hcloses : ∀ rest, Closes rest → StmtEnds rest := by
    intro rest hrest helse
    exact absurd (hrest.symm.trans helse) (by simp)
  have hstmtsContinue : ∀ {stmts : List (Derivation × Stmt)},
      (∀ stmt ∈ stmts, DerivesStmt stmt.1 stmt.2) →
      ∀ stmt ∈ stmts, Continues Closes StmtEnds [stmt.1] := by
    intro stmts hstmts stmt hstmt rest
    have hstart := (hstmts stmt hstmt).startsStmt rest
    exact ⟨(not_of_startsStmt hstart).2.2.1, (not_of_startsStmt hstart).1⟩
  have hbodies : Parted (fun _ => True)
      (parts.stmts.map Prod.fst ++ [.leaf parts.closing])
      (parts'.stmts.map Prod.fst ++ [.leaf parts'.closing]) :=
    Parted.append (Parted.phrases hcloses (hstmtsContinue hstmts)
      (hstmtsContinue hstmts') hparted) (Parted.leaf _ _ Parted.nil)
      (fun _ _ => hframed.closing) fun _ _ => hframed'.closing
  have huntyped : ∀ {parts : BlockParts}, parts.Framed →
      (∀ stmt ∈ parts.stmts, DerivesStmt stmt.1 stmt.2) → ∀ rest, Untyped
        ((parts.stmts.map Prod.fst ++ [Derivation.leaf parts.closing]).flatMap
          Derivation.tokens ++ rest) := by
    intro parts hframed hstmts rest
    cases hcases : parts.stmts with
    | nil => simp [Untyped, hframed.closing, startsType]
    | cons stmt stmts =>
        have hstart := (hstmts stmt (by simp [hcases])).startsStmt
          ((stmts.map Prod.fst ++ [Derivation.leaf parts.closing]).flatMap
            Derivation.tokens ++ rest)
        simpa [Untyped] using (not_of_startsStmt hstart).2.2.2
  have hdecls : Parted Untyped (parts.decls.map Prod.fst)
      (parts'.decls.map Prod.fst) := by
    refine Parted.phrases (fun _ _ => trivial)
      (fun decl hdecl => (hframed.decls decl hdecl).continues ?_)
      (fun decl hdecl => (hframed'.decls decl hdecl).continues ?_)
      fun decl hdecl decl' hdecl' =>
        (hframed.decls decl hdecl).parted (hframed'.decls decl' hdecl')
    all_goals
      intro token rest hstart huntyped
      exact absurd (hstart.symm.trans huntyped) (by simp)
  unfold BlockParts.derivation
  rw [List.append_assoc, List.append_assoc]
  exact Parted.node _ (Parted.leaf _ _ (Parted.append hdecls hbodies
    (fun rest _ => huntyped hframed hstmts rest)
    fun rest _ => huntyped hframed' hstmts' rest))

/-- The reserved word that a statement begins with, if it does. -/
def Stmt.lead : Stmt → Option Keyword
  | .read _ => some .cin
  | .write _ => some .cout
  | .ifThen _ _ => some .if_
  | .ifElse _ _ _ => some .if_
  | .while_ _ _ => some .while_
  | .ret _ => some .return_
  | _ => none

/-- The reserved word of a statement that begins with a token. -/
def leadOf : TokenKind → Option Keyword
  | .keyword .cin => some .cin
  | .keyword .cout => some .cout
  | .keyword .if_ => some .if_
  | .keyword .while_ => some .while_
  | .keyword .return_ => some .return_
  | _ => none

theorem leadOf_of_startsExpr {kind : TokenKind} (h : startsExpr kind = true) :
    leadOf kind = none := by
  cases kind with
  | keyword word => cases word <;> first | rfl | exact absurd h (by decide)
  | _ => rfl

theorem DerivesStmt.lead {part : Derivation} {stmt : Stmt} (h : DerivesStmt part stmt) :
    ∃ token, part.tokens.head? = some token ∧ leadOf token.kind = stmt.lead := by
  cases h with
  | @read word _ _ _ _ hword | @write word _ _ _ _ hword
    | @ifThen word _ _ _ _ _ hword | @ifElse word _ _ _ _ _ _ _ hword
    | @while_ word _ _ _ _ _ hword | @retNone word _ hword
    | @retSome word _ _ _ hword =>
      exact ⟨word, by simp, by rw [hword]; rfl⟩
  | assign hexpr | call hexpr | inc hexpr | dec hexpr =>
      obtain ⟨token, tokens, htokens, hstart⟩ := hexpr.head
      exact ⟨token, by simp [htokens], leadOf_of_startsExpr hstart⟩

/-- An expression that a mark ends as a whole. -/
theorem DerivesExpr.parted_marks {part part' : Derivation} {expr expr' : Expr}
    (h : DerivesExpr .assignment part expr) (h' : DerivesExpr .assignment part' expr')
    {mark mark' : Token} {kind kind' : TokenKind} {more more' : List Derivation}
    {Ends : List Token → Prop} (hmark : mark.kind = kind) (hmark' : mark'.kind = kind')
    (hkind : ∀ closer : Level, closer.takes kind = false)
    (hkind' : ∀ closer : Level, closer.takes kind' = false)
    (hmore : Parted Ends (.leaf mark :: more) (.leaf mark' :: more')) :
    Parted Ends (part :: .leaf mark :: more) (part' :: .leaf mark' :: more') :=
  Parted.cons (h.parted h') hmore
    (fun _ _ => Level.ends_of_kind .assignment hmark hkind _)
    fun _ _ => Level.ends_of_kind .assignment hmark' hkind' _

/-- No expression starts where a semicolon stands. -/
theorem DerivesExpr.parted_semicolon {part : Derivation} {expr : Expr}
    (h : DerivesExpr .assignment part expr) {closing : Token}
    (hclosing : closing.kind = .punct .semicolon) {more more' : List Derivation}
    {Ends : List Token → Prop} :
    Parted Ends (part :: more) (.leaf closing :: more') := by
  obtain ⟨token, tokens, htokens, hstart⟩ := h.head
  refine Parted.of_heads token closing (by simp [htokens]) (by simp) ?_
  rw [hclosing]
  exact ne_of_starts hstart rfl

/-- Statements that begin with different words are told apart by these. -/
theorem DerivesStmt.parted_of_lead {part part' : Derivation} {stmt stmt' : Stmt}
    (h : DerivesStmt part stmt) (h' : DerivesStmt part' stmt')
    (hparted : stmt.lead = stmt'.lead → Parted StmtEnds [part] [part']) :
    Parted StmtEnds [part] [part'] := by
  by_cases hlead : stmt.lead = stmt'.lead
  · exact hparted hlead
  · obtain ⟨token, hhead, htoken⟩ := h.lead
    obtain ⟨token', hhead', htoken'⟩ := h'.lead
    refine Parted.of_heads token token' (by simpa using hhead) (by simpa using hhead') ?_
    intro hkind
    rw [hkind, htoken'] at htoken
    exact hlead htoken.symm

/-- What a statement consists of that begins with no word of its own: an expression
and a mark, and a semicolon behind any other mark. -/
theorem DerivesStmt.eq_of_expr {part : Derivation} {stmt : Stmt}
    (h : DerivesStmt part stmt) (hlead : stmt.lead = none) :
    ∃ inner expr mark more, part = .node .stmt (inner :: .leaf mark :: more) ∧
      DerivesExpr .assignment inner expr ∧
      (∀ closer : Level, closer.takes mark.kind = false) ∧
      if mark.kind = .punct .semicolon then more = []
      else ∃ closing, more = [.leaf closing] := by
  cases h with
  | assign hexpr hclosing | call hexpr hclosing =>
      refine ⟨_, _, _, _, rfl, hexpr, ?_, by rw [if_pos hclosing]⟩
      intro closer
      rw [hclosing]
      cases closer <;> rfl
  | inc hexpr _ hmark _ | dec hexpr _ hmark _ =>
      refine ⟨_, _, _, _, rfl, hexpr, ?_, by simp [hmark]⟩
      intro closer
      rw [hmark]
      cases closer <;> rfl
  | _ => cases hlead

theorem DerivesStmt.parted_of_expr {part part' : Derivation} {stmt stmt' : Stmt}
    (h : DerivesStmt part stmt) (h' : DerivesStmt part' stmt')
    (hlead : stmt.lead = none) : Parted StmtEnds [part] [part'] := by
  refine parted_of_lead h h' fun hsame => ?_
  obtain ⟨inner, expr, mark, more, rfl, hexpr, hmark, hmore⟩ := h.eq_of_expr hlead
  obtain ⟨inner', expr', mark', more', rfl, hexpr', hmark', hmore'⟩ :=
    h'.eq_of_expr (hsame ▸ hlead)
  refine Parted.node _ (hexpr.parted_marks hexpr' rfl rfl hmark hmark' ?_)
  by_cases hkind : mark.kind = mark'.kind
  · refine Parted.leaf _ _ ?_
    rw [hkind] at hmore
    split at hmore
    · next hsemicolon =>
        rw [if_pos hsemicolon] at hmore'
        rw [hmore, hmore']
        exact Parted.nil
    · next hsemicolon =>
        rw [if_neg hsemicolon] at hmore'
        obtain ⟨closing, rfl⟩ := hmore
        obtain ⟨closing', rfl⟩ := hmore'
        exact Parted.leaf _ _ Parted.nil
  · exact Parted.of_heads mark mark' (by simp) (by simp) hkind

/-- A condition in parentheses and the block behind it. -/
theorem BlockParts.parted_condition {part part' : Derivation} {cond cond' : Expr}
    {closing closing' : Token} {body body' : BlockParts} {more more' : List Derivation}
    (hcond : DerivesExpr .assignment part cond)
    (hcond' : DerivesExpr .assignment part' cond')
    (hclosing : closing.kind = .punct .rightParen)
    (hclosing' : closing'.kind = .punct .rightParen)
    (hbody : Parted (fun _ => True) [body.derivation] [body'.derivation])
    (hmore : Parted StmtEnds more more') (word word' opening opening' : Token) :
    Parted StmtEnds
      [.node .stmt (.leaf word :: .leaf opening :: part :: .leaf closing
        :: body.derivation :: more)]
      [.node .stmt (.leaf word' :: .leaf opening' :: part' :: .leaf closing'
        :: body'.derivation :: more')] := by
  refine Parted.node _ (Parted.leaf _ _ (Parted.leaf _ _ ?_))
  refine hcond.parted_marks hcond' hclosing hclosing'
    (by intro closer; cases closer <;> rfl) (by intro closer; cases closer <;> rfl) ?_
  exact Parted.leaf _ _ (Parted.cons hbody hmore (fun _ _ => trivial)
    fun _ _ => trivial)

/-- A statement without its other half is not the beginning of one that has it. -/
theorem Parted.nil_else {other : Token} (hother : other.kind = .keyword .else_)
    (more : List Derivation) : Parted StmtEnds [] (.leaf other :: more) := by
  intro rest rest' hrest _ htokens
  rw [List.flatMap_nil, List.nil_append] at htokens
  rw [htokens] at hrest
  exact absurd hother hrest

/-- A statement has one derivation at most, up to where it can end. -/
theorem DerivesStmt.parted {part part' : Derivation} {stmt stmt' : Stmt}
    (h : DerivesStmt part stmt) (h' : DerivesStmt part' stmt') :
    Parted StmtEnds [part] [part'] := by
  have hsemicolon : ∀ closer : Level, closer.takes (.punct .semicolon) = false := by
    intro closer
    cases closer <;> rfl
  induction h generalizing part' stmt' with
  | read hword hmark hloc hclosing =>
      refine parted_of_lead (.read hword hmark hloc hclosing) h' fun hlead => ?_
      cases h' with
      | read _ _ hloc' hclosing' =>
          refine Parted.node _ (Parted.leaf _ _ (Parted.leaf _ _
            (Parted.cons (hloc.parted hloc') (Parted.leaf _ _ Parted.nil) ?_ ?_)))
          · exact fun _ _ => by simp [hclosing]
          · exact fun _ _ => by simp [hclosing']
      | _ => cases hlead
  | write hword hmark hexpr hclosing =>
      refine parted_of_lead (.write hword hmark hexpr hclosing) h' fun hlead => ?_
      cases h' with
      | write _ _ hexpr' hclosing' =>
          exact Parted.node _ (Parted.leaf _ _ (Parted.leaf _ _
            (hexpr.parted_marks hexpr' hclosing hclosing' hsemicolon hsemicolon
              (Parted.leaf _ _ Parted.nil))))
      | _ => cases hlead
  | ifThen hword hopening hcond hclosing hbody hstmts ih =>
      refine parted_of_lead (.ifThen hword hopening hcond hclosing hbody hstmts) h'
        fun hlead => ?_
      cases h' with
      | ifThen _ _ hcond' hclosing' hbody' hstmts' =>
          exact BlockParts.parted_condition hcond hcond' hclosing hclosing'
            (BlockParts.parted hbody hbody' hstmts hstmts' fun stmt hstmt stmt' hstmt' =>
              ih stmt hstmt (hstmts' stmt' hstmt')) Parted.nil _ _ _ _
      | ifElse _ _ hcond' hclosing' hthen' hthenStmts' hother' =>
          exact BlockParts.parted_condition hcond hcond' hclosing hclosing'
            (BlockParts.parted hbody hthen' hstmts hthenStmts'
              fun stmt hstmt stmt' hstmt' => ih stmt hstmt (hthenStmts' stmt' hstmt'))
            (Parted.nil_else hother' _) _ _ _ _
      | _ => cases hlead
  | ifElse hword hopening hcond hclosing hthen hthenStmts hother helse helseStmts
      ihthen ihelse =>
      refine parted_of_lead (.ifElse hword hopening hcond hclosing hthen hthenStmts
        hother helse helseStmts) h' fun hlead => ?_
      cases h' with
      | ifThen _ _ hcond' hclosing' hbody' hstmts' =>
          exact BlockParts.parted_condition hcond hcond' hclosing hclosing'
            (BlockParts.parted hthen hbody' hthenStmts hstmts'
              fun stmt hstmt stmt' hstmt' => ihthen stmt hstmt (hstmts' stmt' hstmt'))
            (Parted.nil_else hother _).symm _ _ _ _
      | ifElse _ _ hcond' hclosing' hthen' hthenStmts' _ helse' helseStmts' =>
          refine BlockParts.parted_condition hcond hcond' hclosing hclosing'
            (BlockParts.parted hthen hthen' hthenStmts hthenStmts'
              fun stmt hstmt stmt' hstmt' =>
                ihthen stmt hstmt (hthenStmts' stmt' hstmt'))
            (Parted.leaf _ _ ?_) _ _ _ _
          exact (BlockParts.parted helse helse' helseStmts helseStmts'
            fun stmt hstmt stmt' hstmt' =>
              ihelse stmt hstmt (helseStmts' stmt' hstmt')).mono fun _ _ => trivial
      | _ => cases hlead
  | while_ hword hopening hcond hclosing hbody hstmts ih =>
      refine parted_of_lead (.while_ hword hopening hcond hclosing hbody hstmts) h'
        fun hlead => ?_
      cases h' with
      | while_ _ _ hcond' hclosing' hbody' hstmts' =>
          exact BlockParts.parted_condition hcond hcond' hclosing hclosing'
            (BlockParts.parted hbody hbody' hstmts hstmts' fun stmt hstmt stmt' hstmt' =>
              ih stmt hstmt (hstmts' stmt' hstmt')) Parted.nil _ _ _ _
      | _ => cases hlead
  | retNone hword hclosing =>
      refine parted_of_lead (.retNone hword hclosing) h' fun hlead => ?_
      cases h' with
      | retNone => exact Parted.node _ (Parted.leaf _ _ (Parted.leaf _ _ Parted.nil))
      | retSome _ hvalue' =>
          exact Parted.node _ (Parted.leaf _ _ (hvalue'.parted_semicolon hclosing).symm)
      | _ => cases hlead
  | retSome hword hvalue hclosing =>
      refine parted_of_lead (.retSome hword hvalue hclosing) h' fun hlead => ?_
      cases h' with
      | retNone _ hclosing' =>
          exact Parted.node _ (Parted.leaf _ _ (hvalue.parted_semicolon hclosing'))
      | retSome _ hvalue' hclosing' =>
          exact Parted.node _ (Parted.leaf _ _ (hvalue.parted_marks hvalue' hclosing
            hclosing' hsemicolon hsemicolon (Parted.leaf _ _ Parted.nil)))
      | _ => cases hlead
  | assign hexpr hclosing => exact parted_of_expr (.assign hexpr hclosing) h' rfl
  | call hexpr hclosing => exact parted_of_expr (.call hexpr hclosing) h' rfl
  | inc hexpr hlocation hmark hclosing =>
      exact parted_of_expr (.inc hexpr hlocation hmark hclosing) h' rfl
  | dec hexpr hlocation hmark hclosing =>
      exact parted_of_expr (.dec hexpr hlocation hmark hclosing) h' rfl

theorem DerivesBlock.parted {part part' : Derivation} {block block' : Block}
    (h : DerivesBlock part block) (h' : DerivesBlock part' block') :
    Parted (fun _ => True) [part] [part'] := by
  cases h with
  | block hframed hstmts =>
    cases h' with
    | block hframed' hstmts' =>
        exact BlockParts.parted hframed hframed' hstmts hstmts'
          fun stmt hstmt stmt' hstmt' =>
            (hstmts stmt hstmt).parted (hstmts' stmt' hstmt')

theorem Parted.structDecl {fields fields' : List (Derivation × Decl)}
    (hfields : ∀ field ∈ fields, DerivesVarDecl field.1 field.2)
    (hfields' : ∀ field ∈ fields', DerivesVarDecl field.1 field.2)
    {closing closing' : Token} (hclosing : closing.kind = .punct .rightBrace)
    (hclosing' : closing'.kind = .punct .rightBrace) (stop stop' : Token) :
    Parted (fun _ => True)
      (fields.map Prod.fst ++ [.leaf closing, .leaf stop])
      (fields'.map Prod.fst ++ [.leaf closing', .leaf stop']) := by
  let Closes (rest : List Token) : Prop := (nextToken rest).kind = .punct .rightBrace
  have hcontinues : ∀ {fields : List (Derivation × Decl)},
      (∀ field ∈ fields, DerivesVarDecl field.1 field.2) →
      ∀ field ∈ fields, Continues Closes (fun _ => True) [field.1] := by
    intro fields hfields field hfield
    refine (hfields field hfield).continues ?_
    intro token rest hstart hcloses
    exact ne_of_starts hstart rfl hcloses
  have hrow : Parted Closes (fields.map Prod.fst) (fields'.map Prod.fst) :=
    Parted.phrases (fun _ _ => trivial) (hcontinues hfields) (hcontinues hfields')
      fun field hfield field' hfield' =>
        (hfields field hfield).parted (hfields' field' hfield')
  exact Parted.append hrow (Parted.leaf _ _ (Parted.leaf _ _ Parted.nil))
    (fun _ _ => hclosing) fun _ _ => hclosing'

/-- A variable of a struct type is not the beginning of the declaration of a struct. -/
theorem DerivesVarDecl.parted_struct {part : Derivation} {decl : Decl}
    (h : DerivesVarDecl part decl) {token word opening : Token}
    (htoken : token.kind = .keyword .struct)
    (hopening : opening.kind = .punct .leftBrace) (more : List Derivation) :
    Parted (fun _ => True) [.node .decl [part]]
      [.node .decl (.leaf token :: .leaf word :: .leaf opening :: more)] := by
  cases h with
  | @var type _ word' closing' name' htype hword' hclosing' =>
      obtain ⟨first, behind, rfl, hbehind⟩ := htype.eq_node
      by_cases hstruct : first.kind = .keyword .struct
      · rw [if_pos hstruct] at hbehind
        obtain ⟨structWord, rfl⟩ := hbehind
        intro rest rest' _ _ htokens
        simp only [List.flatMap_cons, List.flatMap_nil, Derivation.tokens_node,
          Derivation.tokens_leaf, List.append_nil, List.cons_append, List.nil_append,
          List.cons.injEq] at htokens
        rw [htokens.2.2.1, hopening] at hword'
        exact absurd hword' (by simp)
      · exact Parted.of_heads first token (by simp) (by simp) (by rwa [htoken])

/-- A variable is not the beginning of a function. -/
theorem DerivesVarDecl.parted_func {part result : Derivation} {decl : Decl}
    {type : TypeNode} (h : DerivesVarDecl part decl) (hresult : DerivesType result type)
    {word opening : Token} (hopening : opening.kind = .punct .leftParen)
    (more : List Derivation) :
    Parted (fun _ => True) [.node .decl [part]]
      [.node .decl (result :: .leaf word :: .leaf opening :: more)] := by
  cases h with
  | @var typePart _ word' closing' name' htype hword' hclosing' =>
      have hkind : closing'.kind ≠ opening.kind := by
        rw [hclosing', hopening]
        simp
      have hrow : Parted (fun _ => True)
          [typePart, .leaf word', .leaf closing']
          (result :: .leaf word :: .leaf opening :: more) :=
        Parted.cons (htype.parted hresult) (Parted.leaf _ _
          (Parted.of_heads closing' opening (by simp) (by simp) hkind))
          (fun _ _ => trivial) fun _ _ => trivial
      refine Parted.of_ne hrow ?_ (by simp) (by simp)
      intro hsame
      simp only [List.cons.injEq, Derivation.leaf.injEq] at hsame
      exact hkind (congrArg Token.kind hsame.2.2.1)

/-- A function does not begin with the word of a struct. -/
theorem DerivesType.parted_struct {result : Derivation} {type : TypeNode}
    (h : DerivesType result type) (hplain : ∀ id, type ≠ .struct id) {token : Token}
    (htoken : token.kind = .keyword .struct) (more more' : List Derivation) :
    Parted (fun _ => True) [.node .decl (result :: more)]
      [.node .decl (.leaf token :: more')] := by
  obtain ⟨first, hfirst, hkind⟩ := h.head_of_plain hplain
  exact Parted.of_heads first token (by simp [hfirst]) (by simp) (by rwa [htoken])

/-- A declaration has one derivation at most, whatever stands behind it. -/
theorem DerivesDecl.parted {part part' : Derivation} {decl decl' : Decl}
    (h : DerivesDecl part decl) (h' : DerivesDecl part' decl') :
    Parted (fun _ => True) [part] [part'] := by
  cases h with
  | struct htoken _ hopening _ hfields hclosing _ =>
      cases h' with
      | struct _ _ _ _ hfields' hclosing' _ =>
          exact Parted.node _ (Parted.leaf _ _ (Parted.leaf _ _ (Parted.leaf _ _
            (Parted.structDecl hfields hfields' hclosing hclosing' _ _))))
      | var hpart' => exact (hpart'.parted_struct htoken hopening _).symm
      | func hresult' hplain' =>
          exact (hresult'.parted_struct hplain' htoken _ _).symm
  | var hpart =>
      cases h' with
      | struct htoken' _ hopening' => exact hpart.parted_struct htoken' hopening' _
      | var hpart' => exact Parted.node _ (hpart.parted hpart')
      | func hresult' _ _ hopening' => exact hpart.parted_func hresult' hopening' _
  | func hresult hplain _ hopening hseparated hformals hclosing hbody =>
      cases h' with
      | struct htoken' => exact hresult.parted_struct hplain htoken' _ _
      | var hpart' => exact (hpart'.parted_func hresult hopening _).symm
      | func hresult' _ _ _ hseparated' hformals' hclosing' hbody' =>
          have hrow := Parted.listing ⟨fun _ _ _ => trivial, fun _ _ _ => trivial⟩
            hseparated hseparated'
            (fun formal hformal => (hformals formal hformal).not_rightParen)
            (fun formal hformal => (hformals' formal hformal).not_rightParen)
            (fun formal hformal formal' hformal' =>
              (hformals formal hformal).parted (hformals' formal' hformal'))
            hclosing hclosing' (hbody.parted hbody')
          exact Parted.node _ (Parted.cons (hresult.parted hresult')
            (Parted.leaf _ _ (Parted.leaf _ _ hrow)) (fun _ _ => trivial)
            fun _ _ => trivial)

/-- A program has one derivation at most, up to the end of the file. -/
theorem DerivesProgram.parted {part part' : Derivation} {program program' : Program}
    (h : DerivesProgram part program) (h' : DerivesProgram part' program') :
    Parted (fun rest => (nextToken rest).isEof = true) [part] [part'] := by
  cases h with
  | program hdecls =>
    cases h' with
    | program hdecls' =>
        have hcontinues : ∀ {decls : List (Derivation × Decl)},
            (∀ decl ∈ decls, DerivesDecl decl.1 decl.2) → ∀ decl ∈ decls,
            Continues (fun rest => (nextToken rest).isEof = true) (fun _ => True)
              [decl.1] := by
          intro decls hdecls decl hdecl rest
          obtain ⟨token, tokens, htokens, hstart⟩ := (hdecls decl hdecl).head
          refine ⟨trivial, ?_⟩
          intro heof
          rw [List.flatMap_cons, List.flatMap_nil, List.append_nil, htokens,
            List.cons_append, nextToken_cons, Token.isEof, beq_iff_eq] at heof
          exact ne_of_starts hstart rfl heof
        exact Parted.node _ (Parted.phrases (fun _ _ => trivial) (hcontinues hdecls)
          (hcontinues hdecls') fun decl hdecl decl' hdecl' =>
            (hdecls decl hdecl).parted (hdecls' decl' hdecl'))

end MiniLang

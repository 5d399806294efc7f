/-
Printing loses nothing but places: programs and expressions that are printed alike are the
same, up to where their parts stand. This holds of field accesses too, although what they
are printed as cannot be read back.
-/
import MiniLang.Proofs.Grammar.Unambiguity
import MiniLang.Proofs.Print.Layout
import MiniLang.Proofs.Print.Rereading
import MiniLang.Proofs.Print.Telling
import MiniLang.Proofs.Report.Excerpts
import Mathlib

namespace MiniLang

/-- Nothing is lost with the links of an expression that has none. -/
theorem Expr.unplaced_eq_bare {expr : Expr}
    (h : ∀ id, Leaf.name id ∈ expr.leaves → id.symbol = none) :
    expr.unplaced = expr.bare := by
  have hid : ∀ {id : Ident}, id.symbol = none → id.unplaced = id.bare := by
    intro id hsymbol
    rw [Ident.unplaced, Ident.bare, hsymbol]
  unfold Expr.unplaced Expr.bare
  induction expr using Expr.induct with
  | int | str | bool => rfl
  | name id => exact congrArg Expr.name (hid (h id (by simp [Expr.leaves])))
  | dot loc field ih =>
      simp only [Expr.leaves, List.mem_append, List.mem_singleton] at h
      exact congrArg₂ Expr.dot (ih fun id hmem => h id (.inl hmem)) (hid (h field (.inr rfl)))
  | assign lhs rhs ihlhs ihrhs =>
      simp only [Expr.leaves, List.mem_append] at h
      exact congrArg₂ Expr.assign (ihlhs fun id hmem => h id (.inl hmem))
        (ihrhs fun id hmem => h id (.inr hmem))
  | call callee args ih =>
      simp only [Expr.leaves, Expr.leavesOfList_eq, List.mem_cons, List.mem_flatMap] at h
      simp only [Expr.relabel, Expr.relabelList_eq]
      refine congrArg₂ Expr.call (hid (h callee (.inl rfl))) (List.map_congr_left ?_)
      exact fun arg harg => ih arg harg fun id hmem => h id (.inr ⟨arg, harg, hmem⟩)
  | unary op operand ih => exact congrArg (Expr.unary op) (ih h)
  | binary op lhs rhs ihlhs ihrhs =>
      simp only [Expr.leaves, List.mem_append] at h
      exact congrArg₂ (Expr.binary op) (ihlhs fun id hmem => h id (.inl hmem))
        (ihrhs fun id hmem => h id (.inr hmem))

theorem Token.symbol_of_leaf? {token : Token} {id : Ident}
    (h : token.leaf? = some (.name id)) : id.symbol = none := by
  unfold Token.leaf? at h
  split at h
  · cases h
    rfl
  all_goals cases h

section Expr

variable {level level' : Level} {part part' : Derivation} {expr expr' : Expr}

/-- No name of an expression that is derived is linked. -/
theorem DerivesExpr.unplaced_eq_bare (h : DerivesExpr level part expr) :
    expr.unplaced = expr.bare := by
  refine Expr.unplaced_eq_bare fun id hid => ?_
  rw [h.leaves, Derivation.leaves, List.mem_filterMap] at hid
  obtain ⟨token, _, hread⟩ := hid
  exact Token.symbol_of_leaf? hread

theorem DerivesExpr.tells (h : DerivesExpr level part expr)
    (h' : DerivesExpr level' part' expr') :
    Tells EndsExpr expr.kinds expr'.kinds (expr.unplaced = expr'.unplaced) := by
  rw [h.unplaced_eq_bare, h'.unplaced_eq_bare]
  exact expr.tells expr'

theorem DerivesExpr.tells_alone (h : DerivesExpr level part expr)
    (h' : DerivesExpr level' part' expr') :
    Tells EndsAlone (kindsOf (expr.items false)) (kindsOf (expr'.items false))
      (expr.unplaced = expr'.unplaced) := by
  rw [h.unplaced_eq_bare, h'.unplaced_eq_bare]
  exact expr.tells_alone expr'

end Expr

section Types

variable {ends : TokenKind → Prop} {part part' : Derivation} {type type' : TypeNode}
  {more more' : List TokenKind} {same : Prop}

theorem Ident.unplaced_eq {word word' : Token} {name name' : String}
    (h : TokenKind.ident name = .ident name') :
    (word.ident name).unplaced = (word'.ident name').unplaced := by
  rw [TokenKind.ident.inj h]
  rfl

theorem TypeNode.kinds_struct (id : Ident) :
    kindsOf (TypeNode.struct id).items = [.keyword .struct, .ident id.name] := by
  simp [TypeNode.items, kindsOf_ident]

theorem DerivesType.tells (h : DerivesType part type) (h' : DerivesType part' type') :
    Tells ends (kindsOf type.items) (kindsOf type'.items)
      (type.unplaced = type'.unplaced) := by
  cases h <;> cases h'
  case struct.struct =>
    rw [TypeNode.kinds_struct, TypeNode.kinds_struct]
    refine .cons fun _ => .cons fun hname => .refl ?_
    exact congrArg TypeNode.struct (Ident.unplaced_eq hname)
  all_goals first | exact .refl rfl | exact .of_ne (by simp)

/-- A type and a name behind it. -/
theorem tells_typed (h : DerivesType part type) (h' : DerivesType part' type')
    {word word' : Token} {name name' : String}
    (hmore : type.unplaced = type'.unplaced →
      (word.ident name).unplaced = (word'.ident name').unplaced →
        Tells ends more more' same) :
    Tells ends (kindsOf (printTyped type (word.ident name)) ++ more)
      (kindsOf (printTyped type' (word'.ident name')) ++ more') same := by
  simp only [printTyped, kindsOf_append, kindsOf_space, kindsOf_ident, List.append_assoc,
    List.singleton_append]
  have htypes : Tells (fun _ => True) _ _ _ := h.tells h'
  exact htypes.before trivial trivial fun htype hname =>
    hmore htype (Ident.unplaced_eq hname)

theorem DerivesVarDecl.tells {decl decl' : Decl} (h : DerivesVarDecl part decl)
    (h' : DerivesVarDecl part' decl') (level : Nat) :
    Tells ends (kindsOf (decl.items level)) (kindsOf (decl'.items level))
      (decl.unplaced = decl'.unplaced) := by
  cases h with
  | var htype _ _ =>
      cases h' with
      | var htype' _ _ =>
          simp only [Decl.items, kindsOf_line, kindsOf_append]
          exact tells_typed htype htype' fun hsame hid =>
            .refl (congrArg₂ Decl.var hsame hid)

theorem DerivesFormal.tells {formal formal' : Formal} (h : DerivesFormal part formal)
    (h' : DerivesFormal part' formal') :
    Tells ends (kindsOf (printTyped formal.type formal.id))
      (kindsOf (printTyped formal'.type formal'.id))
      (formal.unplaced = formal'.unplaced) := by
  cases h with
  | @formal _ type word name htype _ =>
      cases h' with
      | @formal _ type' word' name' htype' _ =>
          have htyped : Tells ends (kindsOf (printTyped type (word.ident name)) ++ [])
              (kindsOf (printTyped type' (word'.ident name')) ++ [])
              (Formal.unplaced ⟨type, word.ident name⟩ =
                Formal.unplaced ⟨type', word'.ident name'⟩) :=
            tells_typed htype htype' fun hsame hid => .refl (congrArg₂ Formal.mk hsame hid)
          rwa [List.append_nil, List.append_nil] at htyped

end Types

/-- What may stand behind a statement: anything but the other half of one. -/
def EndsStmt (kind : TokenKind) : Prop := kind ≠ .keyword .else_

/-- What ends the statements of a block. -/
def EndsBlock (kind : TokenKind) : Prop := kind = .punct .rightBrace

section Heads

theorem Expr.startsExpr_opening (expr : Expr) : startsExpr expr.opening = true := by
  cases expr with
  | bool span value => cases value <;> rfl
  | _ => rfl

theorem Expr.head_kinds (expr : Expr) :
    ∃ kind more, expr.kinds = kind :: more ∧ startsExpr kind = true := by
  obtain ⟨more, hkinds⟩ := expr.kinds_eq_cons
  exact ⟨_, more, hkinds, expr.startsExpr_opening⟩

theorem Expr.head_alone (expr : Expr) :
    ∃ kind more, kindsOf (expr.items false) = kind :: more ∧ startsExpr kind = true := by
  by_cases hassign : ∃ lhs rhs, expr = .assign lhs rhs
  · obtain ⟨lhs, rhs, rfl⟩ := hassign
    obtain ⟨kind, more, hkinds, hkind⟩ := lhs.head_kinds
    rw [Expr.kinds_alone_assign, hkinds]
    exact ⟨kind, _, rfl, hkind⟩
  · rw [Expr.kinds_alone fun lhs rhs h => hassign ⟨lhs, rhs, h⟩]
    exact expr.head_kinds

theorem TypeNode.head_kinds (type : TypeNode) :
    ∃ kind more, kindsOf type.items = kind :: more ∧ startsType kind = true := by
  cases type <;> exact ⟨_, _, rfl, rfl⟩

theorem head_typed (type : TypeNode) (id : Ident) (behind : List TokenKind) :
    ∃ kind more, kindsOf (printTyped type id) ++ behind = kind :: more ∧
      startsType kind = true := by
  obtain ⟨kind, more, hkinds, hkind⟩ := type.head_kinds
  rw [printTyped, kindsOf_append, hkinds]
  exact ⟨kind, _, rfl, hkind⟩

theorem Decl.kinds_struct (id : Ident) (fields : List Decl) (level : Nat) :
    kindsOf ((Decl.struct id fields).items level) = .keyword .struct :: .ident id.name ::
      .punct .leftBrace :: ((fields.flatMap fun field =>
        kindsOf (field.items (level + indentWidth))) ++
          .punct .rightBrace :: [.punct .semicolon]) := by
  simp [Decl.items, Decl.itemsOfList_eq, kindsOf_ident]

theorem Decl.kinds_func (result : TypeNode) (id : Ident) (formals : List Formal)
    (body : Block) (level : Nat) :
    kindsOf ((Decl.func result id formals body).items level) =
      kindsOf (printTyped result id) ++ .punct .leftParen ::
        (kindsOf (printSeparated (formals.map fun formal =>
          printTyped formal.type formal.id)) ++ [.punct .rightParen] ++
        .punct .leftBrace :: (kindsOf (body.items (level + indentWidth)) ++
          .punct .rightBrace :: [])) := by
  simp [Decl.items]

/-- A printed declaration starts with the type that it declares or uses. -/
theorem Decl.head_kinds (decl : Decl) (level : Nat) : ∃ kind more,
    kindsOf (decl.items level) = kind :: more ∧ startsType kind = true := by
  cases decl with
  | var type id =>
      rw [Decl.items, kindsOf_line, kindsOf_append]
      exact head_typed type id _
  | func result id formals body =>
      rw [Decl.kinds_func]
      exact head_typed result id _
  | struct id fields =>
      rw [Decl.kinds_struct]
      exact ⟨_, _, rfl, rfl⟩

theorem Decl.resumes {ends : TokenKind → Prop} (decl : Decl)
    (hends : ∀ kind, startsType kind = true → ¬ ends kind) (level : Nat) :
    Resumes ends (fun _ => True) (kindsOf (decl.items level)) := by
  obtain ⟨kind, more, hkinds, hkind⟩ := decl.head_kinds level
  exact ⟨kind, more, hkinds, trivial, hends kind hkind⟩

/-- A printed statement starts with the word that leads it, or with an expression. -/
theorem Stmt.head_kinds (stmt : Stmt) (level : Nat) : ∃ kind more,
    kindsOf (stmt.items level) = kind :: more ∧ startsStmt kind = true ∧
      leadOf kind = stmt.lead := by
  have hexpr : ∀ {kinds behind : List TokenKind}, (∃ kind more,
      kinds = kind :: more ∧ startsExpr kind = true) → ∃ kind more,
      kinds ++ behind = kind :: more ∧ startsStmt kind = true ∧ leadOf kind = none := by
    rintro kinds behind ⟨kind, more, rfl, hkind⟩
    exact ⟨kind, _, rfl, startsStmt_of_startsExpr hkind, leadOf_of_startsExpr hkind⟩
  cases stmt with
  | assign expr =>
      simp only [Stmt.items, kindsOf_line, kindsOf_append]
      exact hexpr expr.head_alone
  | inc loc | dec loc =>
      simp only [Stmt.items, kindsOf_line, kindsOf_append]
      exact hexpr loc.head_kinds
  | call callee args =>
      simp only [Stmt.items, kindsOf_line, kindsOf_append]
      exact hexpr (Expr.call callee args).head_kinds
  | read | write | ifThen | ifElse | while_ =>
      simp only [Stmt.items, kindsOf_append, kindsOf_braced, kindsOf_head, kindsOf_line,
        kindsOf_word, List.cons_append]
      exact ⟨_, _, rfl, rfl, rfl⟩
  | ret value =>
      cases value with
      | none => exact ⟨_, _, rfl, rfl, rfl⟩
      | some value =>
          simp only [Stmt.items, kindsOf_line, kindsOf_append, kindsOf_word]
          exact ⟨_, _, rfl, rfl, rfl⟩

end Heads

section Statements

variable {part part' : Derivation} {stmt stmt' : Stmt} {level : Nat}
  {ends : TokenKind → Prop} {same : Prop}

/-- Statements that begin with different words are told apart by these. -/
theorem Tells.of_lead (h : stmt.lead = stmt'.lead →
      Tells ends (kindsOf (stmt.items level)) (kindsOf (stmt'.items level)) same) :
    Tells ends (kindsOf (stmt.items level)) (kindsOf (stmt'.items level)) same := by
  by_cases hlead : stmt.lead = stmt'.lead
  · exact h hlead
  · obtain ⟨kind, more, hkinds, _, hkind⟩ := stmt.head_kinds level
    obtain ⟨kind', more', hkinds', _, hkind'⟩ := stmt'.head_kinds level
    rw [hkinds, hkinds']
    refine .cons fun hsame => absurd ?_ hlead
    rw [← hkind, ← hkind', hsame]

/-- The statement that an expression is with a mark behind it. -/
def Expr.store : Punct → Expr → Stmt
  | .plusPlus, loc => .inc loc
  | .minusMinus, loc => .dec loc
  | _, .call callee args => .call callee args
  | _, expr => .assign expr

/-- What a statement is printed as that begins with no word of its own: an expression and a
mark, and a semicolon behind any other mark. -/
theorem DerivesStmt.kinds_of_expr (h : DerivesStmt part stmt) (hlead : stmt.lead = none)
    (level : Nat) : ∃ inner expr mark, DerivesExpr .assignment inner expr ∧
      kindsOf (stmt.items level) = kindsOf (expr.items false) ++ .punct mark ::
        (if mark = .semicolon then [] else [.punct .semicolon]) ∧
      EndsAlone (.punct mark) ∧ stmt.unplaced = expr.unplaced.store mark := by
  have hlocation : ∀ {loc : Expr}, loc.isLocation = true →
      loc.items false = loc.items true := by
    intro loc hloc
    cases loc <;> first | rfl | cases hloc
  cases h with
  | assign hexpr _ =>
      refine ⟨_, _, .semicolon, hexpr, ?_, endsAlone_punct (by decide) (by decide), rfl⟩
      simp only [Stmt.items, kindsOf_line, kindsOf_append]
      rfl
  | call hexpr _ =>
      refine ⟨_, _, .semicolon, hexpr, ?_, endsAlone_punct (by decide) (by decide), ?_⟩
      · simp only [Stmt.items, kindsOf_line, kindsOf_append]
        rfl
      · simp only [Stmt.unplaced, Stmt.relabel, Expr.unplaced, Expr.relabel,
          Expr.relabelList_eq, Expr.store]
  | inc hexpr hloc _ _ =>
      refine ⟨_, _, .plusPlus, hexpr, ?_, endsAlone_punct (by decide) (by decide), rfl⟩
      simp only [Stmt.items, kindsOf_line, kindsOf_append, hlocation hloc]
      rfl
  | dec hexpr hloc _ _ =>
      refine ⟨_, _, .minusMinus, hexpr, ?_, endsAlone_punct (by decide) (by decide), rfl⟩
      simp only [Stmt.items, kindsOf_line, kindsOf_append, hlocation hloc]
      rfl
  | _ => cases hlead

theorem DerivesStmt.tells_of_expr (h : DerivesStmt part stmt) (h' : DerivesStmt part' stmt')
    (hlead : stmt.lead = none) (level : Nat) :
    Tells ends (kindsOf (stmt.items level)) (kindsOf (stmt'.items level))
      (stmt.unplaced = stmt'.unplaced) := by
  refine .of_lead fun hsame => ?_
  obtain ⟨_, expr, mark, hexpr, hkinds, hmark, hstore⟩ := h.kinds_of_expr hlead level
  obtain ⟨_, expr', mark', hexpr', hkinds', hmark', hstore'⟩ :=
    h'.kinds_of_expr (hsame ▸ hlead) level
  rw [hkinds, hkinds', hstore, hstore']
  refine (hexpr.tells_alone hexpr').before hmark hmark' fun hunplaced hmarks => ?_
  obtain rfl : mark = mark' := TokenKind.punct.inj hmarks
  exact .refl (by rw [hunplaced])

/-- Variables behind each other are told apart where no type follows them. -/
theorem tells_variables {decls decls' : List (Derivation × Decl)}
    (hends : ∀ kind, startsType kind = true → ¬ ends kind)
    (hdecls : ∀ decl ∈ decls, DerivesVarDecl decl.1 decl.2)
    (hdecls' : ∀ decl ∈ decls', DerivesVarDecl decl.1 decl.2) (level : Nat) :
    Tells ends ((decls.map Prod.snd).flatMap fun decl => kindsOf (decl.items level))
      ((decls'.map Prod.snd).flatMap fun decl => kindsOf (decl.items level))
      ((decls.map Prod.snd).map Decl.unplaced = (decls'.map Prod.snd).map Decl.unplaced) := by
  refine Tells.flatMap (fun _ _ => trivial)
    (fun decl _ => decl.resumes hends level) (fun decl _ => decl.resumes hends level) ?_
  refine List.forall_mem_map.mpr fun decl hdecl => List.forall_mem_map.mpr fun decl' hdecl' => ?_
  exact (hdecls decl hdecl).tells (hdecls' decl' hdecl') level

/-- What is printed between the braces of a body tells what it is. -/
theorem BlockParts.Framed.tells {parts parts' : BlockParts} (h : parts.Framed)
    (h' : parts'.Framed) (hstmts : ∀ stmt ∈ parts.stmts, ∀ stmt' ∈ parts'.stmts,
      Tells EndsStmt (kindsOf (stmt.2.items level)) (kindsOf (stmt'.2.items level))
        (stmt.2.unplaced = stmt'.2.unplaced)) :
    Tells EndsBlock (kindsOf (parts.block.items level)) (kindsOf (parts'.block.items level))
      (parts.block.unplaced = parts'.block.unplaced) := by
  let untyped (kind : TokenKind) : Prop := startsType kind = false
  have hends : ∀ kind, EndsBlock kind → EndsStmt kind := by
    rintro kind rfl
    simp [EndsStmt]
  have hresumes : ∀ stmt : Stmt, Resumes EndsBlock EndsStmt (kindsOf (stmt.items level)) := by
    intro stmt
    obtain ⟨kind, more, hkinds, hstart, _⟩ := stmt.head_kinds level
    obtain ⟨hbrace, _, helse, _⟩ := not_of_startsStmt hstart
    exact ⟨kind, more, hkinds, helse, hbrace⟩
  have hbodies : Tells EndsBlock _ _ ((parts.stmts.map Prod.snd).map Stmt.unplaced =
      (parts'.stmts.map Prod.snd).map Stmt.unplaced) :=
    Tells.flatMap hends (fun stmt _ => hresumes stmt) (fun stmt _ => hresumes stmt)
      (List.forall_mem_map.mpr fun stmt hstmt =>
        List.forall_mem_map.mpr fun stmt' hstmt' => hstmts stmt hstmt stmt' hstmt')
  have hdecls : Tells untyped _ _ _ :=
    tells_variables (fun _ => ne_false_of_eq_true) h.decls h'.decls level
  have huntyped : ∀ (stmts : List Stmt) rest, Behind EndsBlock rest →
      Behind untyped ((stmts.flatMap fun stmt => kindsOf (stmt.items level)) ++ rest) := by
    intro stmts rest hrest
    cases stmts with
    | nil =>
        intro kind hkind
        rw [hrest kind hkind]
        rfl
    | cons stmt stmts =>
        obtain ⟨kind, more, hkinds, hstart, _⟩ := stmt.head_kinds level
        rw [List.flatMap_cons, hkinds]
        exact behind_cons (not_of_startsStmt hstart).2.2.2 _
  simp only [BlockParts.block, Block.items, Decl.itemsOfList_eq, Stmt.itemsOfList_eq,
    kindsOf_append, kindsOf_flatMap]
  refine hdecls.append (huntyped _) (huntyped _) fun hsame => hbodies.imp fun hbody => ?_
  simp only [Decl.unplaced, Stmt.unplaced] at hsame hbody
  simp only [Block.unplaced, Block.relabel, Decl.relabelList_eq, Stmt.relabelList_eq, hsame,
    hbody]

/-- A condition in parentheses and the body behind it. -/
theorem tells_guarded {cond cond' : Expr} {body body' : Block}
    {more more' : List TokenKind} (hcond : DerivesExpr .assignment part cond)
    (hcond' : DerivesExpr .assignment part' cond')
    (hbody : Tells EndsBlock (kindsOf (body.items level)) (kindsOf (body'.items level))
      (body.unplaced = body'.unplaced))
    (hmore : cond.unplaced = cond'.unplaced → body.unplaced = body'.unplaced →
      Tells ends more more' same) :
    Tells ends
      (.punct .leftParen :: (kindsOf (cond.items true) ++ .punct .rightParen ::
        .punct .leftBrace :: (kindsOf (body.items level) ++ .punct .rightBrace :: more)))
      (.punct .leftParen :: (kindsOf (cond'.items true) ++ .punct .rightParen ::
        .punct .leftBrace :: (kindsOf (body'.items level) ++ .punct .rightBrace :: more')))
      same := by
  refine .cons fun _ => (hcond.tells hcond').before_same (endsExpr_punct (by decide))
    fun hsame => .cons fun _ => ?_
  exact hbody.before_same rfl fun hblock => hmore hsame hblock

/-- No expression starts where a semicolon stands. -/
theorem Tells.semicolon (expr : Expr) (more more' : List TokenKind) :
    Tells ends (.punct .semicolon :: more) (expr.kinds ++ more') same := by
  obtain ⟨kind, rest, hkinds, hkind⟩ := expr.head_kinds
  rw [hkinds]
  exact .cons fun hsame => absurd hsame.symm (ne_of_starts hkind rfl)

/-- A tree between a word with a mark and a semicolon. -/
theorem Tells.headed {expr expr' : Expr} (h : Tells EndsExpr expr.kinds expr'.kinds same)
    (word : Keyword) (mark : Punct) (level : Nat) :
    Tells ends
      (kindsOf (printLine level (printWord word :: .space 1 :: printMark mark :: .space 1
        :: expr.items true ++ [printMark .semicolon])))
      (kindsOf (printLine level (printWord word :: .space 1 :: printMark mark :: .space 1
        :: expr'.items true ++ [printMark .semicolon]))) same := by
  simp only [kindsOf_line, kindsOf_append, kindsOf_word, kindsOf_space, kindsOf_mark,
    List.cons_append]
  exact .cons fun _ => .cons fun _ => h.before_same (endsExpr_punct (by decide))
    fun hsame => .refl hsame

theorem Stmt.kinds_ret (value : Expr) (level : Nat) :
    kindsOf ((Stmt.ret (some value)).items level) =
      .keyword .return_ :: (value.kinds ++ [.punct .semicolon]) := by
  simp [Stmt.items, Expr.kinds]

/-- A printed statement tells what it is, up to where it ends. -/
theorem DerivesStmt.tells (h : DerivesStmt part stmt) (h' : DerivesStmt part' stmt')
    (level : Nat) : Tells EndsStmt (kindsOf (stmt.items level)) (kindsOf (stmt'.items level))
      (stmt.unplaced = stmt'.unplaced) := by
  induction h generalizing part' stmt' level with
  | read _ _ hloc _ =>
      refine .of_lead fun hlead => ?_
      cases h' with
      | read _ _ hloc' _ =>
          have hlocs := (DerivesExpr.loc hloc).tells (DerivesExpr.loc hloc')
          exact (hlocs.headed .cin .readOp level).imp (congrArg Stmt.read)
      | _ => cases hlead
  | write _ _ hexpr _ =>
      refine .of_lead fun hlead => ?_
      cases h' with
      | write _ _ hexpr' _ =>
          exact ((hexpr.tells hexpr').headed .cout .writeOp level).imp (congrArg Stmt.write)
      | _ => cases hlead
  | ifThen _ _ hcond _ hbody _ ih =>
      refine .of_lead fun hlead => ?_
      cases h' with
      | ifThen _ _ hcond' _ hbody' hstmts' =>
          have hblock := hbody.tells hbody' fun stmt hstmt stmt' hstmt' =>
            ih stmt hstmt (hstmts' stmt' hstmt') (level + indentWidth)
          simp only [Stmt.items, kindsOf_braced, kindsOf_head, List.cons_append,
            List.append_assoc, List.nil_append]
          exact .cons fun _ => tells_guarded hcond hcond' hblock fun hsame hbodies =>
            .refl (congrArg₂ Stmt.ifThen hsame hbodies)
      | ifElse _ _ hcond' _ hthen' hthenStmts' =>
          have hblock := hbody.tells hthen' fun stmt hstmt stmt' hstmt' =>
            ih stmt hstmt (hthenStmts' stmt' hstmt') (level + indentWidth)
          simp only [Stmt.items, kindsOf_append, kindsOf_braced, kindsOf_head, kindsOf_word,
            List.cons_append, List.append_assoc, List.nil_append]
          -- the other half may not stand behind a statement that has none
          exact .cons fun _ => tells_guarded hcond hcond' hblock
            fun _ _ => .nil_of_not (absurd rfl)
      | _ => cases hlead
  | ifElse _ _ hcond _ hthen _ _ helse _ ihthen ihelse =>
      refine .of_lead fun hlead => ?_
      cases h' with
      | ifThen _ _ hcond' _ hbody' hstmts' =>
          have hblock := hthen.tells hbody' fun stmt hstmt stmt' hstmt' =>
            ihthen stmt hstmt (hstmts' stmt' hstmt') (level + indentWidth)
          simp only [Stmt.items, kindsOf_append, kindsOf_braced, kindsOf_head, kindsOf_word,
            List.cons_append, List.append_assoc, List.nil_append]
          exact .cons fun _ => tells_guarded hcond hcond' hblock
            fun _ _ => (Tells.nil_of_not (absurd rfl)).symm
      | ifElse _ _ hcond' _ hthen' hthenStmts' _ helse' helseStmts' =>
          have hblock := hthen.tells hthen' fun stmt hstmt stmt' hstmt' =>
            ihthen stmt hstmt (hthenStmts' stmt' hstmt') (level + indentWidth)
          have hother := helse.tells helse' fun stmt hstmt stmt' hstmt' =>
            ihelse stmt hstmt (helseStmts' stmt' hstmt') (level + indentWidth)
          simp only [Stmt.items, kindsOf_append, kindsOf_braced, kindsOf_head, kindsOf_word,
            kindsOf_nil, List.cons_append, List.append_assoc, List.nil_append]
          refine .cons fun _ => tells_guarded hcond hcond' hblock fun hsame hbodies => ?_
          refine .cons fun _ => .cons fun _ => hother.before_same rfl fun hothers => .refl ?_
          simp only [Expr.unplaced, Block.unplaced, Stmt.unplaced, Stmt.relabel]
            at hsame hbodies hothers ⊢
          rw [hsame, hbodies, hothers]
      | _ => cases hlead
  | while_ _ _ hcond _ hbody _ ih =>
      refine .of_lead fun hlead => ?_
      cases h' with
      | while_ _ _ hcond' _ hbody' hstmts' =>
          have hblock := hbody.tells hbody' fun stmt hstmt stmt' hstmt' =>
            ih stmt hstmt (hstmts' stmt' hstmt') (level + indentWidth)
          simp only [Stmt.items, kindsOf_braced, kindsOf_head, List.cons_append,
            List.append_assoc, List.nil_append]
          exact .cons fun _ => tells_guarded hcond hcond' hblock fun hsame hbodies =>
            .refl (congrArg₂ Stmt.while_ hsame hbodies)
      | _ => cases hlead
  | retNone _ _ =>
      refine .of_lead fun hlead => ?_
      cases h' with
      | retNone => exact .refl rfl
      | @retSome _ _ value =>
          rw [Stmt.kinds_ret]
          exact .cons fun _ => .semicolon value _ _
      | _ => cases hlead
  | @retSome _ _ value _ _ hvalue _ =>
      refine .of_lead fun hlead => ?_
      cases h' with
      | retNone =>
          rw [Stmt.kinds_ret]
          exact .cons fun _ => (Tells.semicolon value _ _).symm
      | retSome _ hvalue' _ =>
          rw [Stmt.kinds_ret, Stmt.kinds_ret]
          exact .cons fun _ => (hvalue.tells hvalue').before_same
            (endsExpr_punct (by decide)) fun hsame => .refl (congrArg (Stmt.ret ∘ some) hsame)
      | _ => cases hlead
  | assign hexpr hclosing =>
      exact (DerivesStmt.assign hexpr hclosing).tells_of_expr h' rfl level
  | call hexpr hclosing => exact (DerivesStmt.call hexpr hclosing).tells_of_expr h' rfl level
  | inc hexpr hlocation hmark hclosing =>
      exact (DerivesStmt.inc hexpr hlocation hmark hclosing).tells_of_expr h' rfl level
  | dec hexpr hlocation hmark hclosing =>
      exact (DerivesStmt.dec hexpr hlocation hmark hclosing).tells_of_expr h' rfl level

theorem DerivesBlock.tells {block block' : Block} (h : DerivesBlock part block)
    (h' : DerivesBlock part' block') (level : Nat) :
    Tells EndsBlock (kindsOf (block.items level)) (kindsOf (block'.items level))
      (block.unplaced = block'.unplaced) := by
  cases h with
  | block hframed hstmts =>
      cases h' with
      | block hframed' hstmts' =>
          exact hframed.tells hframed' fun stmt hstmt stmt' hstmt' =>
            (hstmts stmt hstmt).tells (hstmts' stmt' hstmt') level

end Statements

section Declarations

variable {ends : TokenKind → Prop} {part part' : Derivation} {decl decl' : Decl}

/-- The declaration of a struct is not the beginning of one that uses a type. -/
theorem tells_struct_typed (type : TypeNode) (id word : Ident)
    (more more' : List TokenKind) {same : Prop} :
    Tells ends (.keyword .struct :: .ident word.name :: .punct .leftBrace :: more)
      (kindsOf (printTyped type id) ++ more') same := by
  rw [printTyped, kindsOf_append, kindsOf_space, kindsOf_ident]
  cases type with
  | struct other =>
      rw [TypeNode.kinds_struct]
      exact .cons fun _ => .cons fun _ => .of_ne (by simp)
  | _ => exact .of_ne (by simp)

theorem tells_formals {formals formals' : Listing Formal}
    (h : ∀ formal ∈ formals.members, DerivesFormal formal.1 formal.2)
    (h' : ∀ formal ∈ formals'.members, DerivesFormal formal.1 formal.2) :
    Tells ends
      (kindsOf (printSeparated (formals.values.map fun formal =>
        printTyped formal.type formal.id)) ++ [.punct .rightParen])
      (kindsOf (printSeparated (formals'.values.map fun formal =>
        printTyped formal.type formal.id)) ++ [.punct .rightParen])
      (formals.values.map Formal.unplaced = formals'.values.map Formal.unplaced) := by
  let inner (_ : TokenKind) : Prop := True
  have hheads : ∀ formal : Formal, ∃ kind more,
      kindsOf (printTyped formal.type formal.id) = kind :: more ∧
        kind ≠ .punct .rightParen := by
    intro formal
    obtain ⟨kind, more, hkinds, hkind⟩ := head_typed formal.type formal.id []
    rw [List.append_nil] at hkinds
    exact ⟨kind, more, hkinds, ne_of_starts hkind rfl⟩
  have hformals : ∀ formal ∈ formals.values, ∀ formal' ∈ formals'.values,
      Tells inner (kindsOf (printTyped formal.type formal.id))
        (kindsOf (printTyped formal'.type formal'.id))
        (formal.unplaced = formal'.unplaced) := by
    intro formal hformal formal' hformal'
    obtain ⟨member, hmember, rfl⟩ := Listing.exists_member hformal
    obtain ⟨member', hmember', rfl⟩ := Listing.exists_member hformal'
    exact (h member hmember).tells (h' member' hmember')
  exact Tells.separated trivial trivial hheads hformals

/-- A printed declaration tells what it is, whatever stands behind it. -/
theorem DerivesDecl.tells (h : DerivesDecl part decl) (h' : DerivesDecl part' decl') :
    Tells ends (kindsOf (decl.items 0)) (kindsOf (decl'.items 0))
      (decl.unplaced = decl'.unplaced) := by
  cases h with
  | struct _ _ _ _ hfields _ _ =>
      rw [Decl.kinds_struct]
      cases h' with
      | struct _ _ _ _ hfields' _ _ =>
          rw [Decl.kinds_struct]
          refine .cons fun _ => .cons fun hname => .cons fun _ => ?_
          have hends : ∀ kind, startsType kind = true → ¬ EndsBlock kind :=
            fun kind hkind => ne_of_starts hkind rfl
          refine (tells_variables hends hfields hfields' _).before_same rfl
            fun hsame => .refl ?_
          simp only [Decl.unplaced, Decl.relabel, Decl.relabelList_eq] at hsame ⊢
          exact congrArg₂ Decl.struct (Ident.unplaced_eq hname) hsame
      | var hpart' =>
          cases hpart' with
          | var =>
              rw [Decl.items, kindsOf_line, kindsOf_append]
              exact tells_struct_typed _ _ _ _ _
      | func =>
          rw [Decl.kinds_func]
          exact tells_struct_typed _ _ _ _ _
  | var hpart =>
      cases h' with
      | struct =>
          cases hpart with
          | var =>
              rw [Decl.items, kindsOf_line, kindsOf_append, Decl.kinds_struct]
              exact (tells_struct_typed _ _ _ _ _).symm
      | var hpart' => exact hpart.tells hpart' 0
      | func hresult' =>
          cases hpart with
          | var htype =>
              rw [Decl.items, kindsOf_line, kindsOf_append, Decl.kinds_func]
              exact tells_typed htype hresult' fun _ _ => .of_ne (by simp)
  | func hresult _ _ _ _ hformals _ hbody =>
      rw [Decl.kinds_func]
      cases h' with
      | struct =>
          rw [Decl.kinds_struct]
          exact (tells_struct_typed _ _ _ _ _).symm
      | var hpart' =>
          cases hpart' with
          | var htype' =>
              rw [Decl.items, kindsOf_line, kindsOf_append]
              exact tells_typed hresult htype' fun _ _ => .of_ne (by simp)
      | func hresult' _ _ _ _ hformals' _ hbody' =>
          rw [Decl.kinds_func]
          have hformals : Tells (fun _ => True) _ _ _ := tells_formals hformals hformals'
          refine tells_typed hresult hresult' fun htype hid => .cons fun _ => ?_
          refine hformals.before_same trivial fun hsame => ?_
          refine (hbody.tells hbody' _).before_same rfl fun hblock => .refl ?_
          simp only [TypeNode.unplaced, Formal.unplaced, Block.unplaced, Decl.unplaced,
            Decl.relabel] at htype hsame hblock ⊢
          rw [htype, hid, hsame, hblock]

/-- Programs with the same tokens are the same, but for their places. -/
theorem DerivesProgram.unplaced_eq {program program' : Program}
    (h : DerivesProgram part program) (h' : DerivesProgram part' program')
    (hkinds : kindsOf (Decl.itemsOfList 0 program.decls) =
      kindsOf (Decl.itemsOfList 0 program'.decls)) :
    program.unplaced = program'.unplaced := by
  let ends (_ : TokenKind) : Prop := False
  cases h with
  | @program decls hdecls =>
      cases h' with
      | @program decls' hdecls' =>
          have hrow : Tells ends _ _ ((decls.map Prod.snd).map Decl.unplaced =
              (decls'.map Prod.snd).map Decl.unplaced) :=
            Tells.flatMap (fun _ => False.elim) (fun decl _ => decl.resumes (fun _ _ => id) 0)
              (fun decl _ => decl.resumes (fun _ _ => id) 0)
              (List.forall_mem_map.mpr fun decl hdecl =>
                List.forall_mem_map.mpr fun decl' hdecl' =>
                  (hdecls decl hdecl).tells (hdecls' decl' hdecl'))
          rw [Decl.itemsOfList_eq, Decl.itemsOfList_eq, kindsOf_flatMap, kindsOf_flatMap]
            at hkinds
          exact congrArg Program.mk (hrow.same_of_eq hkinds)

end Declarations

section Texts

/-- Tidy items that are printed alike have the same tokens. -/
theorem kindsOf_eq_of_tidy {items items' : List PrintItem} (h : Tidy items)
    (h' : Tidy items') (hprint : printText items = printText items') :
    kindsOf items = kindsOf items' := by
  have hkinds := kinds_of_tidy h
  rw [hprint, kinds_of_tidy h'] at hkinds
  exact hkinds.symm

variable {doc : Document} {tokens rest : List Token} {expr : Expr}

/-- An expression that is read from a document is printed as tidy items. -/
theorem Document.Offers.tidy_expr (hoffers : doc.Offers tokens)
    (h : Parser.expr tokens = .ok expr rest) : Tidy (expr.items false) := by
  obtain ⟨part, hpart, rfl⟩ := Parser.sound_expr _ _ _ h
  have hplain : ∀ leaf ∈ expr.leaves, leaf.Plain := by
    intro leaf hleaf
    rw [hpart.leaves] at hleaf
    obtain ⟨token, htoken, hread⟩ := List.mem_filterMap.mp hleaf
    have hmem := hoffers.suffix.subset (List.mem_append_left rest htoken)
    rw [scan_tokens, List.mem_append, List.mem_singleton] at hmem
    rcases hmem with hword | rfl
    · exact plain_of_leaf? hword hread
    · cases hread
  have hnone : Trails [] := ⟨trivial, by simp⟩
  have htidy := (expr.opens_items hplain false hnone).1
  rwa [List.append_nil] at htidy

theorem Program.tidy_of_parse {source : String} {program : Program}
    (h : parseTokens (scan source).tokens = .ok program) :
    Tidy (Decl.itemsOfList 0 program.decls) := by
  obtain ⟨part, hpart, htokens⟩ := parseTokens_scan_iff.mp h
  exact program.tidy_items (plain_of_mem_leaves hpart htokens)

/-- Printing loses nothing but places: programs, and expressions that a parser returns
anywhere in a document, are printed alike only if they are the same but for their places. -/
theorem print_injective :
    (∀ source other program program', parseTokens (scan source).tokens = .ok program →
      parseTokens (scan other).tokens = .ok program' →
      program.print = program'.print → program.unplaced = program'.unplaced) ∧
    ∀ (doc other : Document) tokens tokens' expr expr' rest rest', doc.Offers tokens →
      other.Offers tokens' → Parser.expr tokens = .ok expr rest →
      Parser.expr tokens' = .ok expr' rest' →
      expr.print = expr'.print → expr.unplaced = expr'.unplaced := by
  constructor
  · intro source other program program' hparse hparse' hprint
    obtain ⟨part, hpart, _⟩ := parseTokens_scan_iff.mp hparse
    obtain ⟨part', hpart', _⟩ := parseTokens_scan_iff.mp hparse'
    exact hpart.unplaced_eq hpart' (kindsOf_eq_of_tidy (Program.tidy_of_parse hparse)
      (Program.tidy_of_parse hparse') hprint)
  · intro doc other tokens tokens' expr expr' rest rest' hoffers hoffers' hread hread' hprint
    obtain ⟨part, hpart, _⟩ := Parser.sound_expr _ _ _ hread
    obtain ⟨part', hpart', _⟩ := Parser.sound_expr _ _ _ hread'
    exact (hpart.tells_alone hpart').same_of_eq
      (kindsOf_eq_of_tidy (hoffers.tidy_expr hread) (hoffers'.tidy_expr hread') hprint)

/-- Two ways to write an assignment to a field, as a program and as an expression. -/
theorem print_injective_field :
    (∃ program program',
      parseTokens (scan "void f() { p.a = 1; }").tokens = .ok program ∧
      parseTokens (scan "void f(){(p.a)=(1);}").tokens = .ok program' ∧
      program.print = program'.print ∧ program.unplaced = program'.unplaced) ∧
    ∃ expr expr' rest rest',
      Parser.expr (closeTokens (scan "p.a = 1").tokens) = .ok expr rest ∧
      Parser.expr (closeTokens (scan "(p.a)=(1)").tokens) = .ok expr' rest' ∧
      expr.print = expr'.print ∧ expr.unplaced = expr'.unplaced := by
  let word (name : String) (column : Nat) : Ident := ⟨name, Span.ofLength ⟨1, column⟩ 1, none⟩
  let store (column behind : Nat) : Expr :=
    .assign (.dot (.name (word "p" column)) (word "a" (column + 2)))
      (.int (Span.ofLength ⟨1, behind⟩ 1) 1)
  let program (column behind : Nat) : Program :=
    ⟨[.func .void (word "f" 6) [] (.mk [] [.assign (store column behind)])]⟩
  have hprogram : parseTokens (scan "void f() { p.a = 1; }").tokens =
      .ok (program 12 18) := by cbv
  have hprogram' : parseTokens (scan "void f(){(p.a)=(1);}").tokens =
      .ok (program 11 17) := by cbv
  have hexpr : Parser.expr (closeTokens (scan "p.a = 1").tokens) =
      .ok (store 1 7) [Token.eofAt ⟨1, 8⟩] := by cbv
  have hexpr' : Parser.expr (closeTokens (scan "(p.a)=(1)").tokens) =
      .ok (store 2 8) [Token.eofAt ⟨1, 10⟩] := by cbv
  have hprograms : (program 12 18).print = (program 11 17).print := by cbv
  have hexprs : (store 1 7).print = (store 2 8).print := by cbv
  exact ⟨⟨_, _, hprogram, hprogram', hprograms,
      print_injective.1 _ _ _ _ hprogram hprogram' hprograms⟩,
    _, _, _, _, hexpr, hexpr', hexprs,
    print_injective.2 (.ofText "p.a = 1") (.ofText "(p.a)=(1)") _ _ _ _ _ _ .start .start
      hexpr hexpr' hexprs⟩

end Texts

end MiniLang

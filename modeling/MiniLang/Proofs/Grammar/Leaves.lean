/-
The leaves of the tree of a derivation: they are the names and literals among the
tokens, in their order, and no name is linked.
-/
import MiniLang.Proofs.Grammar.Repetition
import MiniLang.Proofs.Token.Tokens
import MiniLang.Tree.Leaves

namespace MiniLang

/-- The leaf that a token is read as, if it is a name or a literal. -/
def Token.leaf? (token : Token) : Option Leaf :=
  match token.kind with
  | .ident name => some (.name (token.ident name))
  | .int value => some (.int token.span value)
  | .str text => some (.str token.span text)
  | .keyword .true_ => some (.bool token.span true)
  | .keyword .false_ => some (.bool token.span false)
  | _ => none

theorem Token.leaf?_of_ident {token : Token} {name : String}
    (h : token.kind = .ident name) : token.leaf? = some (.name (token.ident name)) := by
  rw [Token.leaf?, h]

theorem Token.leaf?_of_punct {token : Token} {mark : Punct}
    (h : token.kind = .punct mark) : token.leaf? = none := by
  rw [Token.leaf?, h]

def Derivation.leaves (part : Derivation) : List Leaf :=
  part.tokens.filterMap Token.leaf?

@[simp] theorem Derivation.leaves_leaf (token : Token) :
    (Derivation.leaf token).leaves = token.leaf?.toList := by
  rw [Derivation.leaves, Derivation.tokens_leaf, List.filterMap_cons]
  cases token.leaf? <;> rfl

@[simp] theorem Derivation.leaves_node (category : Category)
    (parts : List Derivation) :
    (Derivation.node category parts).leaves = parts.flatMap Derivation.leaves := by
  rw [Derivation.leaves, Derivation.tokens_node, List.filterMap_flatMap]
  rfl

/-- The leaves of a list are those of its items: commas are no leaves. -/
theorem Listing.leaves {α : Type} {listing : Listing α} {leavesOf : α → List Leaf}
    (hseparated : listing.Separated)
    (hmembers : ∀ member ∈ listing.members, leavesOf member.2 = member.1.leaves) :
    listing.values.flatMap leavesOf = listing.parts.flatMap Derivation.leaves := by
  cases listing with
  | empty => rfl
  | items part value others =>
      simp only [Listing.members, List.forall_mem_cons, List.forall_mem_map] at hmembers
      obtain ⟨hpart, hothers⟩ := hmembers
      have hleaves : ∀ other ∈ others, leavesOf other.value =
          [.leaf other.comma, other.part].flatMap Derivation.leaves := by
        intro other hother
        simp [hothers other hother, Token.leaf?_of_punct (hseparated other hother)]
      rw [Listing.values, Listing.parts, List.flatMap_cons, List.flatMap_cons, hpart,
        List.flatMap_map, List.flatMap_assoc, List.flatMap_def, List.flatMap_def,
        List.map_congr_left hleaves]

theorem DerivesLoc.leaves {part : Derivation} {loc : Expr} (h : DerivesLoc part loc) :
    loc.leaves = part.leaves := by
  cases h with
  | @access word name accesses hword haccesses =>
      have hfields : ∀ loc : Expr, ((accesses.map FieldAccess.id).foldl .dot loc).leaves =
          loc.leaves ++ (accesses.flatMap FieldAccess.parts).flatMap
            Derivation.leaves := by
        induction accesses with
        | nil => simp
        | cons access accesses ih =>
            intro loc
            have hmore := ih (fun other hother => haccesses other (by simp [hother]))
              (.dot loc access.id)
            obtain ⟨hdot, hfield⟩ := haccesses access (by simp)
            rw [List.map_cons, List.foldl_cons, hmore]
            simp [Expr.leaves, FieldAccess.parts, FieldAccess.id,
              Token.leaf?_of_punct hdot, Token.leaf?_of_ident hfield]
      rw [hfields]
      simp [Expr.leaves, Token.leaf?_of_ident hword]

theorem joinOperands_leaves {first : Expr} {others : List Operand}
    (hmarks : ∀ other ∈ others, other.mark.leaf? = none)
    (hothers : ∀ other ∈ others, other.value.leaves = other.part.leaves) :
    (joinOperands first others).leaves =
      first.leaves ++ (others.flatMap Operand.parts).flatMap Derivation.leaves := by
  induction others generalizing first with
  | nil => simp [joinOperands]
  | cons other others ih =>
      have hmore : (joinOperands (.binary other.op first other.value) others).leaves =
          (Expr.binary other.op first other.value).leaves ++
            (others.flatMap Operand.parts).flatMap Derivation.leaves :=
        ih (fun more hmore => hmarks more (by simp [hmore]))
          fun more hmore => hothers more (by simp [hmore])
      rw [joinOperands, List.foldl_cons, ← joinOperands, hmore]
      simp [Expr.leaves, Operand.parts, hmarks other (by simp),
        hothers other (by simp)]

/-- An expression and its derivation have the same leaves, in the same order. -/
theorem DerivesExpr.leaves {level : Level} {part : Derivation} {expr : Expr}
    (h : DerivesExpr level part expr) : expr.leaves = part.leaves := by
  induction h with
  | plain _ ih | uncompared _ ih | unmarked _ ih => simpa using ih
  | assign _ _ hmark _ ihtarget ihvalue =>
      simp [Expr.leaves, ihtarget, ihvalue, Token.leaf?_of_punct hmark]
  | chain hlevel _ hmarks _ ihfirst ihothers =>
      rw [joinOperands_leaves (fun other hother =>
        Token.leaf?_of_punct (Level.punct_of_operator? hlevel (hmarks other hother)))
        ihothers, ihfirst]
      simp
  | compared _ hmark _ ihleft ihright =>
      simp [Expr.leaves, ihleft, ihright,
        Token.leaf?_of_punct (punct_of_chooseRelational hmark)]
  | marked hmark _ ih =>
      simp [Expr.leaves, ih, Token.leaf?_of_punct (punct_of_chooseUnary hmark)]
  | int htoken | str htoken | trueWord htoken | falseWord htoken =>
      simp [Expr.leaves, Token.leaf?, htoken]
  | paren hopening _ hclosing ih =>
      simp [ih, Token.leaf?_of_punct hopening, Token.leaf?_of_punct hclosing]
  | call hword hopening hseparated _ hclosing ih =>
      simp [Expr.leaves, Listing.leaves hseparated ih, Token.leaf?_of_ident hword,
        Token.leaf?_of_punct hopening, Token.leaf?_of_punct hclosing]
  | loc hpart => simpa using hpart.leaves

theorem DerivesType.leaves {part : Derivation} {type : TypeNode}
    (h : DerivesType part type) : type.leaves = part.leaves := by
  cases h with
  | int htoken | bool htoken | void htoken =>
      simp [TypeNode.leaves, Token.leaf?, htoken]
  | struct htoken hword =>
      simp [TypeNode.leaves, Token.leaf?, htoken, hword]

theorem DerivesVarDecl.leaves {part : Derivation} {decl : Decl}
    (h : DerivesVarDecl part decl) : decl.leaves = part.leaves := by
  cases h with
  | var htype hword hclosing =>
      simp [Decl.leaves, htype.leaves, Token.leaf?_of_ident hword,
        Token.leaf?_of_punct hclosing]

theorem DerivesFormal.leaves {part : Derivation} {formal : Formal}
    (h : DerivesFormal part formal) : formal.leaves = part.leaves := by
  cases h with
  | formal htype hword =>
      simp [Formal.leaves, htype.leaves, Token.leaf?_of_ident hword]

theorem flatMap_leaves {α : Type} {items : List (Derivation × α)}
    {leavesOf : α → List Leaf}
    (h : ∀ item ∈ items, leavesOf item.2 = item.1.leaves) :
    (items.map Prod.snd).flatMap leavesOf =
      (items.map Prod.fst).flatMap Derivation.leaves := by
  rw [List.flatMap_map, List.flatMap_map, List.flatMap_def, List.flatMap_def,
    List.map_congr_left h]

theorem BlockParts.Framed.leaves {parts : BlockParts} (h : parts.Framed)
    (hstmts : ∀ stmt ∈ parts.stmts, stmt.2.leaves = stmt.1.leaves) :
    parts.block.leaves = parts.derivation.leaves := by
  have hdecls := flatMap_leaves fun decl hdecl => (h.decls decl hdecl).leaves
  simp [BlockParts.block, BlockParts.derivation, Block.leaves, hdecls,
    flatMap_leaves hstmts, Token.leaf?_of_punct h.opening,
    Token.leaf?_of_punct h.closing]

theorem DerivesStmt.leaves {part : Derivation} {stmt : Stmt}
    (h : DerivesStmt part stmt) : stmt.leaves = part.leaves := by
  induction h with
  | read hword hmark hloc hclosing =>
      simp [Stmt.leaves, hloc.leaves, Token.leaf?, hword, hmark, hclosing]
  | write hword hmark hexpr hclosing =>
      simp [Stmt.leaves, hexpr.leaves, Token.leaf?, hword, hmark, hclosing]
  | ifThen hword hopening hcond hclosing hbody _ ih =>
      simp [Stmt.leaves, hcond.leaves, hbody.leaves ih, Token.leaf?, hword, hopening,
        hclosing]
  | ifElse hword hopening hcond hclosing hthen _ hother helse _ ihthen ihelse =>
      simp [Stmt.leaves, hcond.leaves, hthen.leaves ihthen, helse.leaves ihelse,
        Token.leaf?, hword, hopening, hclosing, hother]
  | while_ hword hopening hcond hclosing hbody _ ih =>
      simp [Stmt.leaves, hcond.leaves, hbody.leaves ih, Token.leaf?, hword, hopening,
        hclosing]
  | retNone hword hclosing => simp [Stmt.leaves, Token.leaf?, hword, hclosing]
  | retSome hword hvalue hclosing =>
      simp [Stmt.leaves, hvalue.leaves, Token.leaf?, hword, hclosing]
  | assign hexpr hclosing =>
      simp [Stmt.leaves, hexpr.leaves, Token.leaf?_of_punct hclosing]
  | call hexpr hclosing =>
      have hleaves := hexpr.leaves
      rw [Expr.leaves, Expr.leavesOfList_eq] at hleaves
      simp [Stmt.leaves, hleaves, Token.leaf?_of_punct hclosing]
  | inc hexpr _ hmark hclosing | dec hexpr _ hmark hclosing =>
      simp [Stmt.leaves, hexpr.leaves, Token.leaf?_of_punct hmark,
        Token.leaf?_of_punct hclosing]

theorem DerivesBlock.leaves {part : Derivation} {block : Block}
    (h : DerivesBlock part block) : block.leaves = part.leaves := by
  cases h with
  | block hframed hstmts =>
      exact hframed.leaves fun stmt hstmt => (hstmts stmt hstmt).leaves

theorem DerivesDecl.leaves {part : Derivation} {decl : Decl}
    (h : DerivesDecl part decl) : decl.leaves = part.leaves := by
  cases h with
  | struct htoken hword hopening _ hfields hclosing hstop =>
      have hleaves := flatMap_leaves fun field hfield => (hfields field hfield).leaves
      simp [Decl.leaves, hleaves, Token.leaf?, htoken, hword, hopening, hclosing,
        hstop]
  | var hpart => simpa using hpart.leaves
  | func hresult _ hword hopening hseparated hformals hclosing hbody =>
      have hlist := Listing.leaves hseparated
        fun formal hformal => (hformals formal hformal).leaves
      simp [Decl.leaves, hresult.leaves, hlist, hbody.leaves,
        Token.leaf?_of_ident hword, Token.leaf?_of_punct hopening,
        Token.leaf?_of_punct hclosing]

/-- The leaves of a program are the names and literals among its tokens. -/
theorem DerivesProgram.leaves {part : Derivation} {program : Program}
    (h : DerivesProgram part program) :
    program.leaves = part.tokens.filterMap Token.leaf? := by
  cases h with
  | program hdecls =>
      have hleaves := flatMap_leaves fun decl hdecl => (hdecls decl hdecl).leaves
      rw [Program.leaves, hleaves, ← Derivation.leaves_node .program]
      rfl

/-- Whether a leaf is a word of the language that is not linked. -/
def Leaf.Plain : Leaf → Prop
  | .name id => IsName id.name ∧ id.symbol = none
  | leaf => leaf.kind.Spelled

/-- The leaves that are read from a text are words of the language. -/
theorem plain_of_leaf? {source : String} {token : Token} {leaf : Leaf}
    (htoken : token ∈ wordsOf source) (hread : token.leaf? = some leaf) : leaf.Plain := by
  have hspelled := spelled_of_mem_wordsOf token htoken
  unfold Token.leaf? at hread
  split at hread
  case h_1 hkind =>
    obtain rfl := Option.some.inj hread
    rw [hkind] at hspelled
    exact ⟨hspelled, rfl⟩
  case h_2 hkind | h_3 hkind =>
    obtain rfl := Option.some.inj hread
    rw [hkind] at hspelled
    exact hspelled
  case h_4 | h_5 =>
    obtain rfl := Option.some.inj hread
    exact trivial
  case h_6 => exact absurd hread nofun

theorem plain_of_mem_leaves {source : String} {part : Derivation} {program : Program}
    (h : DerivesProgram part program) (htokens : part.tokens = wordsOf source) :
    ∀ leaf ∈ program.leaves, leaf.Plain := by
  intro leaf hleaf
  rw [h.leaves, htokens] at hleaf
  obtain ⟨token, htoken, hread⟩ := List.mem_filterMap.mp hleaf
  exact plain_of_leaf? htoken hread

end MiniLang

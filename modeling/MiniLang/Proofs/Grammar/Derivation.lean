/-
The grammar of the language as a theory of derivations. A derivation is a tree whose
leaves are tokens and whose nodes are phrases; every production is a constructor, and
it says which tree of the program the phrase stands for.
-/
import MiniLang.Grammar.Program

namespace MiniLang

/-- The levels of an expression, from the loosest to the closest. -/
inductive Level where
  | assignment
  | disjunction
  | conjunction
  | comparison
  | sum
  | product
  | unary
  | term
deriving Repr, DecidableEq

/-- What a phrase is. -/
inductive Category where
  | program
  | decl
  | varDecl
  | formal
  | type
  | block
  | stmt
  | call
  | loc
  | expr (level : Level)
deriving Repr, DecidableEq

/-- A derivation: a token, or a phrase with its parts behind each other. -/
inductive Derivation where
  | leaf (token : Token)
  | node (category : Category) (parts : List Derivation)

mutual

def Derivation.tokens : Derivation → List Token
  | .leaf token => [token]
  | .node _ parts => Derivation.tokensOfList parts

def Derivation.tokensOfList : List Derivation → List Token
  | [] => []
  | part :: rest => part.tokens ++ Derivation.tokensOfList rest

end

@[simp] theorem Derivation.tokensOfList_eq (parts : List Derivation) :
    Derivation.tokensOfList parts = parts.flatMap Derivation.tokens := by
  induction parts with
  | nil => rfl
  | cons part rest ih => rw [Derivation.tokensOfList, ih, List.flatMap_cons]

@[simp] theorem Derivation.tokens_leaf (token : Token) :
    (Derivation.leaf token).tokens = [token] := rfl

@[simp] theorem Derivation.tokens_node (category : Category)
    (parts : List Derivation) :
    (Derivation.node category parts).tokens =
      parts.flatMap Derivation.tokens := by
  rw [Derivation.tokens, Derivation.tokensOfList_eq]

/-- The name that a token is read as. -/
def Token.ident (token : Token) (name : String) : Ident := ⟨name, token.span, none⟩

/-- A member of a list behind the first one, with the comma in front of it. -/
structure Member (α : Type) where
  comma : Token
  part : Derivation
  value : α

/-- The derivation of `[item (',' item)*]`. -/
inductive Listing (α : Type) where
  | empty
  | items (part : Derivation) (value : α) (others : List (Member α))

variable {α : Type}

/-- The parts of a list, commas included. -/
def Listing.parts : Listing α → List Derivation
  | .empty => []
  | .items part _ others =>
      part :: others.flatMap fun other => [.leaf other.comma, other.part]

/-- What the items of a list stand for. -/
def Listing.values : Listing α → List α
  | .empty => []
  | .items _ value others => value :: others.map Member.value

/-- The items of a list, each with what it stands for. -/
def Listing.members : Listing α → List (Derivation × α)
  | .empty => []
  | .items part value others =>
      (part, value) :: others.map fun other => (other.part, other.value)

/-- Whether what stands between the items of a list are commas. -/
def Listing.Separated : Listing α → Prop
  | .empty => True
  | .items _ _ others => ∀ other ∈ others, other.comma.kind = .punct .comma

/-- `loc = id ('.' id)*`: a dot and the name of a field behind it. -/
structure FieldAccess where
  dot : Token
  word : Token
  name : String

def FieldAccess.parts (access : FieldAccess) : List Derivation :=
  [.leaf access.dot, .leaf access.word]

def FieldAccess.id (access : FieldAccess) : Ident := access.word.ident access.name

/-- The derivations of `loc = id ('.' id)*`. -/
inductive DerivesLoc : Derivation → Expr → Prop where
  | access {word : Token} {name : String} {accesses : List FieldAccess}
      (hword : word.kind = .ident name)
      (haccesses : ∀ access ∈ accesses,
        access.dot.kind = .punct .dot ∧ access.word.kind = .ident access.name) :
      DerivesLoc (.node .loc (.leaf word :: accesses.flatMap FieldAccess.parts))
        ((accesses.map FieldAccess.id).foldl .dot (.name (word.ident name)))

/-- The operators of a level whose operands stand in a row. -/
def Level.operator? : Level → Option (TokenKind → Option BinaryOp)
  | .disjunction => some chooseOr
  | .conjunction => some chooseAnd
  | .sum => some chooseAdditive
  | .product => some chooseMultiplicative
  | _ => none

/-- An operator between operands in a row is a token with its own mark. -/
theorem Level.punct_of_operator? {level : Level}
    {choose : TokenKind → Option BinaryOp} (hlevel : level.operator? = some choose)
    {kind : TokenKind} {op : BinaryOp} (h : choose kind = some op) :
    kind = .punct op.punct := by
  cases level <;> cases hlevel
  case disjunction =>
    obtain ⟨rfl, rfl⟩ := chooseOr_eq_some_iff.mp h
    rfl
  case conjunction =>
    obtain ⟨rfl, rfl⟩ := chooseAnd_eq_some_iff.mp h
    rfl
  case sum =>
    rcases chooseAdditive_eq_some_iff.mp h with ⟨rfl, rfl⟩ | ⟨rfl, rfl⟩ <;> rfl
  case product =>
    rcases chooseMultiplicative_eq_some_iff.mp h with ⟨rfl, rfl⟩ | ⟨rfl, rfl⟩ <;> rfl

/-- The next closer level, which the operands of a level have. -/
def Level.operand : Level → Level
  | .assignment => .disjunction
  | .disjunction => .conjunction
  | .conjunction => .comparison
  | .comparison => .sum
  | .sum => .product
  | .product => .unary
  | .unary => .term
  | .term => .term

/-- An operand behind the first one, with the operator in front of it. -/
structure Operand where
  mark : Token
  op : BinaryOp
  part : Derivation
  value : Expr

def Operand.parts (operand : Operand) : List Derivation :=
  [.leaf operand.mark, operand.part]

/-- Operands in a row, grouped from the left. -/
def joinOperands (first : Expr) (others : List Operand) : Expr :=
  others.foldl (fun lhs other => .binary other.op lhs other.value) first

/-- The derivations of expressions:
`exp = or | or '=' exp` where the tree on the left is a location,
`or = and ('||' and)*`, `and = rel ('&&' rel)*`, `rel = add [relop add]`,
`add = mul (('+' | '-') mul)*`, `mul = un (('*' | '/') un)*`,
`un = ('!' | '-') un | term`, and
`term = literal | '(' exp ')' | call | loc` with
`call = id '(' [exp (',' exp)*] ')'`. -/
inductive DerivesExpr : Level → Derivation → Expr → Prop where
  | plain {part : Derivation} {expr : Expr}
      (hpart : DerivesExpr .disjunction part expr) :
      DerivesExpr .assignment (.node (.expr .assignment) [part]) expr
  | assign {target value : Derivation} {mark : Token} {lhs rhs : Expr}
      (htarget : DerivesExpr .disjunction target lhs)
      (hlocation : lhs.isLocation = true)
      (hmark : mark.kind = .punct .equal)
      (hvalue : DerivesExpr .assignment value rhs) :
      DerivesExpr .assignment
        (.node (.expr .assignment) [target, .leaf mark, value]) (.assign lhs rhs)
  | chain {level : Level} {choose : TokenKind → Option BinaryOp}
      {part : Derivation} {first : Expr} {others : List Operand}
      (hlevel : level.operator? = some choose)
      (hfirst : DerivesExpr level.operand part first)
      (hmarks : ∀ other ∈ others, choose other.mark.kind = some other.op)
      (hothers : ∀ other ∈ others,
        DerivesExpr level.operand other.part other.value) :
      DerivesExpr level
        (.node (.expr level) (part :: others.flatMap Operand.parts))
        (joinOperands first others)
  | uncompared {part : Derivation} {expr : Expr}
      (hpart : DerivesExpr .sum part expr) :
      DerivesExpr .comparison (.node (.expr .comparison) [part]) expr
  | compared {left right : Derivation} {mark : Token} {op : BinaryOp}
      {lhs rhs : Expr}
      (hleft : DerivesExpr .sum left lhs)
      (hmark : chooseRelational mark.kind = some op)
      (hright : DerivesExpr .sum right rhs) :
      DerivesExpr .comparison
        (.node (.expr .comparison) [left, .leaf mark, right]) (.binary op lhs rhs)
  | marked {mark : Token} {op : UnaryOp} {part : Derivation} {operand : Expr}
      (hmark : chooseUnary mark.kind = some op)
      (hpart : DerivesExpr .unary part operand) :
      DerivesExpr .unary (.node (.expr .unary) [.leaf mark, part])
        (.unary op operand)
  | unmarked {part : Derivation} {expr : Expr}
      (hpart : DerivesExpr .term part expr) :
      DerivesExpr .unary (.node (.expr .unary) [part]) expr
  | int {token : Token} {value : Int} (htoken : token.kind = .int value) :
      DerivesExpr .term (.node (.expr .term) [.leaf token])
        (.int token.span value)
  | str {token : Token} {text : String} (htoken : token.kind = .str text) :
      DerivesExpr .term (.node (.expr .term) [.leaf token])
        (.str token.span text)
  | trueWord {token : Token} (htoken : token.kind = .keyword .true_) :
      DerivesExpr .term (.node (.expr .term) [.leaf token])
        (.bool token.span true)
  | falseWord {token : Token} (htoken : token.kind = .keyword .false_) :
      DerivesExpr .term (.node (.expr .term) [.leaf token])
        (.bool token.span false)
  | paren {opening closing : Token} {part : Derivation} {expr : Expr}
      (hopening : opening.kind = .punct .leftParen)
      (hpart : DerivesExpr .assignment part expr)
      (hclosing : closing.kind = .punct .rightParen) :
      DerivesExpr .term
        (.node (.expr .term) [.leaf opening, part, .leaf closing]) expr
  | call {word opening closing : Token} {name : String} {args : Listing Expr}
      (hword : word.kind = .ident name)
      (hopening : opening.kind = .punct .leftParen)
      (hseparated : args.Separated)
      (hargs : ∀ arg ∈ args.members, DerivesExpr .assignment arg.1 arg.2)
      (hclosing : closing.kind = .punct .rightParen) :
      DerivesExpr .term
        (.node (.expr .term) [.node .call
          (.leaf word :: .leaf opening :: args.parts ++ [.leaf closing])])
        (.call (word.ident name) args.values)
  | loc {part : Derivation} {expr : Expr} (hpart : DerivesLoc part expr) :
      DerivesExpr .term (.node (.expr .term) [part]) expr

/-- The derivations of `type = 'int' | 'bool' | 'void' | 'struct' id`. -/
inductive DerivesType : Derivation → TypeNode → Prop where
  | int {token : Token} (htoken : token.kind = .keyword .int) :
      DerivesType (.node .type [.leaf token]) .int
  | bool {token : Token} (htoken : token.kind = .keyword .bool) :
      DerivesType (.node .type [.leaf token]) .bool
  | void {token : Token} (htoken : token.kind = .keyword .void) :
      DerivesType (.node .type [.leaf token]) .void
  | struct {token word : Token} {name : String}
      (htoken : token.kind = .keyword .struct) (hword : word.kind = .ident name) :
      DerivesType (.node .type [.leaf token, .leaf word])
        (.struct (word.ident name))

/-- The derivations of `varDecl = type id ';'`. -/
inductive DerivesVarDecl : Derivation → Decl → Prop where
  | var {part : Derivation} {type : TypeNode} {word closing : Token} {name : String}
      (htype : DerivesType part type) (hword : word.kind = .ident name)
      (hclosing : closing.kind = .punct .semicolon) :
      DerivesVarDecl (.node .varDecl [part, .leaf word, .leaf closing])
        (.var type (word.ident name))

/-- The derivations of `formal = type id`. -/
inductive DerivesFormal : Derivation → Formal → Prop where
  | formal {part : Derivation} {type : TypeNode} {word : Token} {name : String}
      (htype : DerivesType part type) (hword : word.kind = .ident name) :
      DerivesFormal (.node .formal [part, .leaf word]) ⟨type, word.ident name⟩

/-- The parts of a block, each with what it stands for. -/
structure BlockParts where
  opening : Token
  decls : List (Derivation × Decl)
  stmts : List (Derivation × Stmt)
  closing : Token

def BlockParts.derivation (parts : BlockParts) : Derivation :=
  .node .block <| .leaf parts.opening :: parts.decls.map Prod.fst
    ++ parts.stmts.map Prod.fst ++ [.leaf parts.closing]

def BlockParts.block (parts : BlockParts) : Block :=
  .mk (parts.decls.map Prod.snd) (parts.stmts.map Prod.snd)

/-- Whether braces stand around a block and variable declarations come first. -/
structure BlockParts.Framed (parts : BlockParts) : Prop where
  opening : parts.opening.kind = .punct .leftBrace
  decls : ∀ decl ∈ parts.decls, DerivesVarDecl decl.1 decl.2
  closing : parts.closing.kind = .punct .rightBrace

/-- The derivations of statements, where `block = '{' varDecl* stmt* '}'`:
`stmt = 'cin' '>>' loc ';' | 'cout' '<<' exp ';' | 'if' '(' exp ')' block
['else' block] | 'while' '(' exp ')' block | 'return' [exp] ';'`, or `exp ';'` where
the tree is an assignment or a call, or `exp ('++' | '--') ';'` where the tree is a
location. -/
inductive DerivesStmt : Derivation → Stmt → Prop where
  | read {word mark part} {loc : Expr} {closing : Token}
      (hword : Token.kind word = .keyword .cin)
      (hmark : Token.kind mark = .punct .readOp) (hloc : DerivesLoc part loc)
      (hclosing : closing.kind = .punct .semicolon) :
      DerivesStmt
        (.node .stmt [.leaf word, .leaf mark, part, .leaf closing]) (.read loc)
  | write {word mark part} {expr : Expr} {closing : Token}
      (hword : Token.kind word = .keyword .cout)
      (hmark : Token.kind mark = .punct .writeOp)
      (hexpr : DerivesExpr .assignment part expr)
      (hclosing : closing.kind = .punct .semicolon) :
      DerivesStmt
        (.node .stmt [.leaf word, .leaf mark, part, .leaf closing]) (.write expr)
  | ifThen {word opening part} {cond : Expr} {closing : Token} {body : BlockParts}
      (hword : Token.kind word = .keyword .if_)
      (hopening : Token.kind opening = .punct .leftParen)
      (hcond : DerivesExpr .assignment part cond)
      (hclosing : closing.kind = .punct .rightParen)
      (hbody : body.Framed) (hstmts : ∀ stmt ∈ body.stmts, DerivesStmt stmt.1 stmt.2) :
      DerivesStmt
        (.node .stmt [.leaf word, .leaf opening, part, .leaf closing,
          body.derivation])
        (.ifThen cond body.block)
  | ifElse {word opening part} {cond : Expr} {closing other : Token}
      {thenBody elseBody : BlockParts}
      (hword : Token.kind word = .keyword .if_)
      (hopening : Token.kind opening = .punct .leftParen)
      (hcond : DerivesExpr .assignment part cond)
      (hclosing : closing.kind = .punct .rightParen)
      (hthen : thenBody.Framed)
      (hthenStmts : ∀ stmt ∈ thenBody.stmts, DerivesStmt stmt.1 stmt.2)
      (hother : other.kind = .keyword .else_)
      (helse : elseBody.Framed)
      (helseStmts : ∀ stmt ∈ elseBody.stmts, DerivesStmt stmt.1 stmt.2) :
      DerivesStmt
        (.node .stmt [.leaf word, .leaf opening, part, .leaf closing,
          thenBody.derivation, .leaf other, elseBody.derivation])
        (.ifElse cond thenBody.block elseBody.block)
  | while_ {word opening part} {cond : Expr} {closing : Token} {body : BlockParts}
      (hword : Token.kind word = .keyword .while_)
      (hopening : Token.kind opening = .punct .leftParen)
      (hcond : DerivesExpr .assignment part cond)
      (hclosing : closing.kind = .punct .rightParen)
      (hbody : body.Framed) (hstmts : ∀ stmt ∈ body.stmts, DerivesStmt stmt.1 stmt.2) :
      DerivesStmt
        (.node .stmt [.leaf word, .leaf opening, part, .leaf closing,
          body.derivation])
        (.while_ cond body.block)
  | retNone {word closing : Token}
      (hword : word.kind = .keyword .return_)
      (hclosing : closing.kind = .punct .semicolon) :
      DerivesStmt (.node .stmt [.leaf word, .leaf closing]) (.ret none)
  | retSome {word part} {value : Expr} {closing : Token}
      (hword : Token.kind word = .keyword .return_)
      (hvalue : DerivesExpr .assignment part value)
      (hclosing : closing.kind = .punct .semicolon) :
      DerivesStmt (.node .stmt [.leaf word, part, .leaf closing])
        (.ret (some value))
  | assign {part} {lhs rhs : Expr} {closing : Token}
      (hexpr : DerivesExpr .assignment part (.assign lhs rhs))
      (hclosing : closing.kind = .punct .semicolon) :
      DerivesStmt (.node .stmt [part, .leaf closing]) (.assign (.assign lhs rhs))
  | call {part} {callee : Ident} {args : List Expr} {closing : Token}
      (hexpr : DerivesExpr .assignment part (.call callee args))
      (hclosing : closing.kind = .punct .semicolon) :
      DerivesStmt (.node .stmt [part, .leaf closing]) (.call callee args)
  | inc {part} {loc : Expr} {mark closing : Token}
      (hexpr : DerivesExpr .assignment part loc) (hlocation : loc.isLocation = true)
      (hmark : mark.kind = .punct .plusPlus)
      (hclosing : closing.kind = .punct .semicolon) :
      DerivesStmt (.node .stmt [part, .leaf mark, .leaf closing]) (.inc loc)
  | dec {part} {loc : Expr} {mark closing : Token}
      (hexpr : DerivesExpr .assignment part loc) (hlocation : loc.isLocation = true)
      (hmark : mark.kind = .punct .minusMinus)
      (hclosing : closing.kind = .punct .semicolon) :
      DerivesStmt (.node .stmt [part, .leaf mark, .leaf closing]) (.dec loc)

/-- The derivations of `block = '{' varDecl* stmt* '}'`. -/
inductive DerivesBlock : Derivation → Block → Prop where
  | block {parts : BlockParts} (hframed : parts.Framed)
      (hstmts : ∀ stmt ∈ parts.stmts, DerivesStmt stmt.1 stmt.2) :
      DerivesBlock parts.derivation parts.block

/-- The derivations of `decl = 'struct' id '{' varDecl+ '}' ';' | varDecl |
('int' | 'bool' | 'void') id '(' [formal (',' formal)*] ')' block`. -/
inductive DerivesDecl : Derivation → Decl → Prop where
  | struct {token word opening closing stop : Token} {name : String}
      {fields : List (Derivation × Decl)}
      (htoken : token.kind = .keyword .struct) (hword : word.kind = .ident name)
      (hopening : opening.kind = .punct .leftBrace) (hnonempty : fields ≠ [])
      (hfields : ∀ field ∈ fields, DerivesVarDecl field.1 field.2)
      (hclosing : closing.kind = .punct .rightBrace)
      (hstop : stop.kind = .punct .semicolon) :
      DerivesDecl
        (.node .decl <| .leaf token :: .leaf word :: .leaf opening
          :: fields.map Prod.fst ++ [.leaf closing, .leaf stop])
        (.struct (word.ident name) (fields.map Prod.snd))
  | var {part : Derivation} {decl : Decl} (hpart : DerivesVarDecl part decl) :
      DerivesDecl (.node .decl [part]) decl
  | func {part body : Derivation} {result : TypeNode} {word opening closing : Token}
      {name : String} {formals : Listing Formal} {block : Block}
      (hresult : DerivesType part result) (hplain : ∀ id, result ≠ .struct id)
      (hword : word.kind = .ident name)
      (hopening : opening.kind = .punct .leftParen)
      (hseparated : formals.Separated)
      (hformals : ∀ formal ∈ formals.members, DerivesFormal formal.1 formal.2)
      (hclosing : closing.kind = .punct .rightParen)
      (hbody : DerivesBlock body block) :
      DerivesDecl
        (.node .decl <| part :: .leaf word :: .leaf opening
          :: formals.parts ++ [.leaf closing, body])
        (.func result (word.ident name) formals.values block)

/-- The derivations of `program = decl*`. -/
inductive DerivesProgram : Derivation → Program → Prop where
  | program {decls : List (Derivation × Decl)}
      (hdecls : ∀ decl ∈ decls, DerivesDecl decl.1 decl.2) :
      DerivesProgram (.node .program (decls.map Prod.fst))
        ⟨decls.map Prod.snd⟩

end MiniLang

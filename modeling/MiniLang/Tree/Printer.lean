/-
The text of a tree. Operands are put in parentheses, and a name that was linked to
a symbol carries the symbol's type behind it.
-/
import MiniLang.Tree.Basic

namespace MiniLang

/-- One item of a printed text: a word of the language, layout, or the type of a
linked name. -/
inductive PrintItem where
  | token (kind : TokenKind)
  | space (count : Nat)
  | newline
  | note (type : String)
deriving Repr, DecidableEq

def PrintItem.text : PrintItem → String
  | .token kind => kind.spelling
  | .space count => String.ofList (List.replicate count ' ')
  | .newline => "\n"
  | .note type => "(" ++ type ++ ")"

def printText (items : List PrintItem) : String :=
  String.join (items.map PrintItem.text)

def printMark (mark : Punct) : PrintItem := .token (.punct mark)

def printWord (word : Keyword) : PrintItem := .token (.keyword word)

/-- The items of a list, with a comma and a space between two of its members. -/
def printSeparated (parts : List (List PrintItem)) : List PrintItem :=
  [printMark .comma, .space 1].intercalate parts

/-- The items of a list behind the first one. -/
def printOthers (parts : List (List PrintItem)) : List PrintItem :=
  parts.flatMap fun part => printMark .comma :: .space 1 :: part

theorem printSeparated_cons (part : List PrintItem) (rest : List (List PrintItem)) :
    printSeparated (part :: rest) = part ++ printOthers rest := by
  induction rest generalizing part with
  | nil => simp [printSeparated, printOthers]
  | cons next rest ih =>
      have hmore := ih next
      unfold printSeparated at hmore ⊢
      rw [List.intercalate_cons_cons, hmore]
      simp [printOthers]

def printParens (items : List PrintItem) : List PrintItem :=
  printMark .leftParen :: items ++ [printMark .rightParen]

/-- How many columns a body is moved in. -/
def indentWidth : Nat := 4

/-- A name, with its type behind it when it is linked. -/
def Ident.items (id : Ident) : List PrintItem :=
  .token (.ident id.name) ::
    (id.symbol.map fun symbol => PrintItem.note symbol.typeText).toList

def TypeNode.items : TypeNode → List PrintItem
  | .int => [printWord .int]
  | .bool => [printWord .bool]
  | .void => [printWord .void]
  | .struct id => printWord .struct :: .space 1 :: id.items

def printTyped (type : TypeNode) (id : Ident) : List PrintItem :=
  type.items ++ .space 1 :: id.items

mutual

/-- An expression. Only an assignment looks different where it is `nested`: there
it is put in parentheses. -/
def Expr.items (nested : Bool) : Expr → List PrintItem
  | .int _ value => [.token (.int value)]
  | .str _ text => [.token (.str text)]
  | .bool _ value => [printWord (if value then .true_ else .false_)]
  | .name id => id.items
  | .dot loc field =>
      printParens (loc.items true) ++ printMark .dot :: field.items
  | .assign lhs rhs =>
      let items := lhs.items true
        ++ .space 1 :: printMark .equal :: .space 1 :: rhs.items true
      if nested then printParens items else items
  | .call callee args =>
      callee.items ++ printParens (printSeparated (Expr.itemsOfArgs args))
  | .unary op operand => printParens (printMark op.punct :: operand.items true)
  | .binary op lhs rhs =>
      printParens <| lhs.items true
        ++ .space 1 :: printMark op.punct :: .space 1 :: rhs.items true

def Expr.itemsOfArgs : List Expr → List (List PrintItem)
  | [] => []
  | arg :: rest => arg.items true :: Expr.itemsOfArgs rest

end

theorem Expr.itemsOfArgs_eq (args : List Expr) :
    Expr.itemsOfArgs args = args.map (Expr.items true) := by
  induction args with
  | nil => rfl
  | cons arg rest ih => rw [Expr.itemsOfArgs, ih, List.map_cons]

/-- A line of its own, moved in by `level` columns. -/
def printLine (level : Nat) (items : List PrintItem) : List PrintItem :=
  .space level :: items ++ [.newline]

/-- A condition between parentheses, behind the word that it belongs to. -/
def printHead (word : Keyword) (cond : Expr) : List PrintItem :=
  printWord word :: .space 1 :: printParens (cond.items true)

/-- A head and a body between braces, where the body has been printed already. -/
def printBraced (level : Nat) (head body : List PrintItem) : List PrintItem :=
  printLine level (head ++ [.space 1, printMark .leftBrace]) ++ body
    ++ printLine level [printMark .rightBrace]

mutual

/-- A declaration, moved in by `level` columns. A blank line follows a struct and
a function, and the closing brace of a function is never moved in. -/
def Decl.items (level : Nat) : Decl → List PrintItem
  | .var type id => printLine level (printTyped type id ++ [printMark .semicolon])
  | .func result id formals body =>
      let params := formals.map fun formal => printTyped formal.type formal.id
      printLine level (printTyped result id ++ printParens (printSeparated params)
          ++ [.space 1, printMark .leftBrace])
        ++ body.items (level + indentWidth)
        ++ [printMark .rightBrace, .newline, .newline]
  | .struct id fields =>
      printLine level
          (printWord .struct :: .space 1 :: id.items ++ [printMark .leftBrace])
        ++ Decl.itemsOfList (level + indentWidth) fields
        ++ printLine level [printMark .rightBrace, printMark .semicolon, .newline]

def Decl.itemsOfList (level : Nat) : List Decl → List PrintItem
  | [] => []
  | decl :: rest => decl.items level ++ Decl.itemsOfList level rest

/-- The declarations and statements of a block, without its braces. -/
def Block.items (level : Nat) : Block → List PrintItem
  | .mk decls stmts =>
      Decl.itemsOfList level decls ++ Stmt.itemsOfList level stmts

/-- A statement, moved in by `level` columns. -/
def Stmt.items (level : Nat) : Stmt → List PrintItem
  | .assign expr => printLine level (expr.items false ++ [printMark .semicolon])
  | .inc loc =>
      printLine level
        (loc.items true ++ [printMark .plusPlus, printMark .semicolon])
  | .dec loc =>
      printLine level
        (loc.items true ++ [printMark .minusMinus, printMark .semicolon])
  | .read loc =>
      printLine level (printWord .cin :: .space 1 :: printMark .readOp :: .space 1
        :: loc.items true ++ [printMark .semicolon])
  | .write expr =>
      printLine level (printWord .cout :: .space 1 :: printMark .writeOp :: .space 1
        :: expr.items true ++ [printMark .semicolon])
  | .ifThen cond body =>
      printBraced level (printHead .if_ cond) (body.items (level + indentWidth))
  | .ifElse cond thenBody elseBody =>
      printBraced level (printHead .if_ cond) (thenBody.items (level + indentWidth))
        ++ printBraced level [printWord .else_]
          (elseBody.items (level + indentWidth))
  | .while_ cond body =>
      printBraced level (printHead .while_ cond)
        (body.items (level + indentWidth))
  | .call callee args =>
      printLine level
        ((Expr.call callee args).items true ++ [printMark .semicolon])
  | .ret none => printLine level [printWord .return_, printMark .semicolon]
  | .ret (some value) =>
      printLine level
        (printWord .return_ :: .space 1 :: value.items true
          ++ [printMark .semicolon])

def Stmt.itemsOfList (level : Nat) : List Stmt → List PrintItem
  | [] => []
  | stmt :: rest => stmt.items level ++ Stmt.itemsOfList level rest

end

theorem Decl.itemsOfList_eq (level : Nat) (decls : List Decl) :
    Decl.itemsOfList level decls = decls.flatMap (Decl.items level) := by
  induction decls with
  | nil => rfl
  | cons decl rest ih => rw [Decl.itemsOfList, ih, List.flatMap_cons]

theorem Stmt.itemsOfList_eq (level : Nat) (stmts : List Stmt) :
    Stmt.itemsOfList level stmts = stmts.flatMap (Stmt.items level) := by
  induction stmts with
  | nil => rfl
  | cons stmt rest ih => rw [Stmt.itemsOfList, ih, List.flatMap_cons]

/-- The text of an expression that stands alone. -/
def Expr.print (expr : Expr) : String := printText (expr.items false)

def Program.print (program : Program) : String :=
  printText (Decl.itemsOfList 0 program.decls)

end MiniLang

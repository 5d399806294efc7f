/-
Name resolution: a walk over a program that declares names in scopes, links every
name to the symbol it stands for, and reports the names that break a rule.

A walk that cannot go on halts. From then on it declares, links and reports
nothing, so the rest of the program stays as it is.
-/
import MiniLang.Scope.NameError
import MiniLang.Scope.Structs
import MiniLang.Tree.Basic

namespace MiniLang

/-- Where a walk stands: the open scopes, the struct types and errors found so far,
how often it reported an error, and the reason why it halted. -/
structure Walk where
  table : SymbolTable
  structs : StructRegistry
  errors : List NameError
  reported : Nat
  halted : Option TableError
deriving Repr, DecidableEq

def Walk.start : Walk := ⟨.new, .empty, [], 0, none⟩

/-- A step of a walk. -/
abbrev Resolver := StateM Walk

/-- Take a step, unless the walk has halted: then the answer is `idle`. -/
def Resolver.unlessHalted {α : Type} (idle : α) (step : Resolver α) :
    Resolver α := do
  if (← get).halted.isSome then return idle else step

def Resolver.report (fault : NameFault) (name : String) (span : Span) :
    Resolver Unit :=
  modify fun walk =>
    { walk with
      errors := walk.errors ++ [⟨fault, name, span⟩]
      reported := walk.reported + 1 }

def Resolver.halt (reason : TableError) : Resolver Unit :=
  modify fun walk => { walk with halted := some reason }

/-- Take a step inside a scope of its own. -/
def Resolver.scoped {α : Type} (step : Resolver α) : Resolver α := do
  modify fun walk => { walk with table := walk.table.push }
  let answer ← step
  let walk ← get
  match walk.table.pop with
  | .ok table => set { walk with table := table }
  | .error reason => Resolver.halt reason
  return answer

/-- Take a step with another symbol table in place of the open scopes. The answer
comes with that table as the step left it. -/
def Resolver.withTable {α : Type} (table : SymbolTable) (step : Resolver α) :
    Resolver (SymbolTable × α) := do
  let outer := (← get).table
  modify fun walk => { walk with table := table }
  let answer ← step
  let inner := (← get).table
  modify fun walk => { walk with table := outer }
  return (inner, answer)

/-- Declare a symbol under its name in the innermost scope. The answer is the
symbol if it was declared, and nothing if the name was taken. -/
def Resolver.declare (symbol : Symbol) : Resolver (Option Symbol) := do
  let walk ← get
  match walk.table.lookupInnermost symbol.name with
  | .error reason =>
      Resolver.halt reason
      return none
  | .ok (some _) =>
      Resolver.report .duplicateDeclaration symbol.name symbol.span
      return none
  | .ok none =>
      match walk.table.declare symbol.name symbol with
      | .error reason =>
          Resolver.halt reason
          return none
      | .ok table =>
          set { walk with table := table }
          return some symbol

/-- A name with the symbol that was found for it. A link that it had before stays
when none was found. -/
def Ident.linkTo (id : Ident) (found : Option Symbol) : Ident :=
  ⟨id.name, id.span, found.or id.symbol⟩

/-- Link a name that is used. -/
def Ident.resolve (id : Ident) : Resolver Ident :=
  Resolver.unlessHalted id do
    match (← get).table.lookup id.name with
    | some symbol => return id.linkTo (some symbol)
    | none =>
        Resolver.report .undeclaredIdentifier id.name id.span
        return id

mutual

/-- Link the names in an expression, from left to right. -/
def Expr.resolve : Expr → Resolver Expr
  | .name id => return .name (← id.resolve)
  | .dot loc field => do
      let loc ← loc.resolve
      return .dot loc (← field.resolve)
  | .assign lhs rhs => do
      let lhs ← lhs.resolve
      return .assign lhs (← rhs.resolve)
  | .call callee args => do
      let callee ← callee.resolve
      return .call callee (← Expr.resolveList args)
  | .unary op operand => return .unary op (← operand.resolve)
  | .binary op lhs rhs => do
      let lhs ← lhs.resolve
      return .binary op lhs (← rhs.resolve)
  | expr => return expr

def Expr.resolveList : List Expr → Resolver (List Expr)
  | [] => return []
  | expr :: rest => do
      let expr ← expr.resolve
      return expr :: (← Expr.resolveList rest)

end

/-- Declare a variable, a field or a parameter, unless it is of type `void`. The
answer is its name and the symbol that was declared. -/
def Resolver.declareVariable (kind : Ty → SymbolKind) (type : TypeNode)
    (id : Ident) : Resolver (Ident × Option Symbol) :=
  Resolver.unlessHalted (id, none) do
    if type.type = .void then
      Resolver.report .voidVariable id.name id.span
      return (id, none)
    else
      let declared ← Resolver.declare ⟨id.name, kind type.type, id.span⟩
      return (id.linkTo declared, declared)

/-- Declare the parameters of a function, from first to last. -/
def Resolver.declareFormals : List Formal → Resolver (List Formal)
  | [] => return []
  | formal :: rest => do
      let declared ← Resolver.declareVariable .param formal.type formal.id
      return ⟨formal.type, declared.1⟩ :: (← Resolver.declareFormals rest)

/-- Declare a function with the types that its heading gives. -/
def Resolver.declareFunction (result : TypeNode) (id : Ident)
    (formals : List Formal) : Resolver Ident :=
  Resolver.unlessHalted id do
    let signature : Signature := ⟨formals.map (·.type.type), result.type⟩
    return id.linkTo
      (← Resolver.declare ⟨id.name, .function signature, id.span⟩)

/-- Make the fields that a struct declared visible in the scope around it. -/
def Resolver.exposeFields : List Symbol → Resolver Unit
  | [] => return ()
  | field :: rest => do
      Resolver.unlessHalted () do
        let _ ← Resolver.declare field
      Resolver.exposeFields rest

/-- Register a struct type that has no fields yet. -/
def Resolver.registerStruct (symbol : Symbol) : Resolver Unit := do
  let walk ← get
  match walk.structs.register ⟨symbol, .new⟩ with
  | .ok structs => set { walk with structs := structs }
  | .error reason => Resolver.halt reason

/-- Give a registered struct type its fields, and expose the ones that it
declared. -/
def Resolver.completeStruct (name : String) (fields : SymbolTable)
    (declared : List Symbol) : Resolver Unit :=
  Resolver.unlessHalted () do
    modify fun walk =>
      { walk with structs := walk.structs.setFields name fields }
    Resolver.exposeFields declared

/-- Whether a struct type may not be declared under a name, and why. -/
def StructRegistry.refusal? (registry : StructRegistry) (name : String) :
    Option NameFault :=
  if isReservedTypeName name then some .invalidStructName
  else if registry.contains name then some .duplicateDeclaration
  else none

mutual

/-- Resolve a declaration. The answer comes with the symbol of the variable that
it declared, if any. The fields of a struct are declared in a table of their own
before they are exposed; a struct that is refused is left alone. -/
def Decl.resolve : Decl → Resolver (Decl × Option Symbol)
  | .var type id => do
      let declared ← Resolver.declareVariable .var type id
      return (.var type declared.1, declared.2)
  | .func result id formals body => do
      let id ← Resolver.declareFunction result id formals
      let inner ← Resolver.scoped do
        let formals ← Resolver.declareFormals formals
        return (formals, ← body.resolve)
      return (.func result id inner.1 inner.2, none)
  | .struct id fields => Resolver.unlessHalted (.struct id fields, none) do
      match (← get).structs.refusal? id.name with
      | some fault =>
          Resolver.report fault id.name id.span
          return (.struct id fields, none)
      | none =>
          let symbol : Symbol := ⟨id.name, .struct, id.span⟩
          Resolver.registerStruct symbol
          let (table, fields, declared) ←
            Resolver.withTable .new (Decl.resolveList fields)
          Resolver.completeStruct id.name table declared
          return (.struct (id.linkTo (some symbol)) fields, none)

/-- Resolve declarations, from first to last. The answer comes with the symbols of
the variables that they declared. -/
def Decl.resolveList : List Decl → Resolver (List Decl × List Symbol)
  | [] => return ([], [])
  | decl :: rest => do
      let first ← decl.resolve
      let others ← Decl.resolveList rest
      return (first.1 :: others.1, first.2.toList ++ others.2)

/-- Resolve the declarations and then the statements of a block. -/
def Block.resolve : Block → Resolver Block
  | .mk decls stmts => do
      let decls ← Decl.resolveList decls
      return .mk decls.1 (← Stmt.resolveList stmts)

/-- Resolve a statement. Every block inside it is a scope. -/
def Stmt.resolve : Stmt → Resolver Stmt
  | .assign expr => return .assign (← expr.resolve)
  | .inc loc => return .inc (← loc.resolve)
  | .dec loc => return .dec (← loc.resolve)
  | .read loc => return .read (← loc.resolve)
  | .write expr => return .write (← expr.resolve)
  | .ifThen cond body => do
      let cond ← cond.resolve
      return .ifThen cond (← Resolver.scoped body.resolve)
  | .ifElse cond thenBody elseBody => do
      let cond ← cond.resolve
      let thenBody ← Resolver.scoped thenBody.resolve
      return .ifElse cond thenBody (← Resolver.scoped elseBody.resolve)
  | .while_ cond body => do
      let cond ← cond.resolve
      return .while_ cond (← Resolver.scoped body.resolve)
  | .call callee args => do
      let callee ← callee.resolve
      return .call callee (← Expr.resolveList args)
  | .ret none => return .ret none
  | .ret (some value) => return .ret (some (← value.resolve))

def Stmt.resolveList : List Stmt → Resolver (List Stmt)
  | [] => return []
  | stmt :: rest => do
      let stmt ← stmt.resolve
      return stmt :: (← Stmt.resolveList rest)

end

/-- What the phases behind are told about the names of a program: its struct types,
the symbols of its outermost scope sorted by their names, and the number of errors. -/
structure Namespace where
  structs : StructRegistry
  globals : List Symbol
  errorCount : Nat
deriving Repr, DecidableEq

def Namespace.hasErrors (names : Namespace) : Bool := 0 < names.errorCount

def Namespace.global? (names : Namespace) (name : String) : Option Symbol :=
  names.globals.find? (·.name == name)

/-- A resolved program, the errors in the order they were found, and what it
declares, or why the walk halted. -/
structure Resolution where
  program : Program
  errors : List NameError
  outcome : Except TableError Namespace

/-- Resolve the names of a program. Links that it has already are replaced where a
name is resolved anew. -/
def Program.resolve (program : Program) : Resolution :=
  let (decls, walk) := (Decl.resolveList program.decls).run .start
  let outcome :=
    match walk.halted with
    | some reason => .error reason
    | none => .ok ⟨walk.structs, walk.table.innermostSymbols, walk.reported⟩
  ⟨⟨decls.1⟩, walk.errors, outcome⟩

end MiniLang

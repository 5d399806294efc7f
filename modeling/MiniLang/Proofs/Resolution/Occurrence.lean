/-
The names of a program in the order of a walk. An occurrence is a declaration or a use
of a name, with the scope that it stands in; a scope is told by the way into it.
-/
import MiniLang.Scope.Resolution
import MiniLang.Tree.Leaves

namespace MiniLang

/-- A way from a scope into one directly inside it: the function at an index of its
declarations, or a body of the statement at an index of its statements. -/
inductive ScopeStep where
  | function (index : Nat)
  | body (index : Nat)
  | elseBody (index : Nat)
deriving Repr, DecidableEq

/-- A scope: the way into it from the outermost one, with the last step first. -/
abbrev ScopePath := List ScopeStep

/-- The scopes around a scope, the innermost one first. -/
def enclosing : ScopePath → List ScopePath
  | [] => []
  | _ :: outer => outer :: enclosing outer

/-- What a name with a type stands for. -/
inductive Binding where
  | variable
  | parameter
deriving Repr, DecidableEq

def Binding.kind : Binding → Ty → SymbolKind
  | .variable => .var
  | .parameter => .param

/-- A place of a tree that declares or uses a name. -/
inductive Site where
  | named (binding : Binding) (type : TypeNode) (id : Ident)
  | function (signature : Signature) (id : Ident)
  | struct (id : Ident) (fields : List Formal)
  | use (id : Ident)
deriving Repr, DecidableEq

/-- A place that declares or uses a name, and the scope that it stands in. -/
structure Occurrence where
  scope : ScopePath
  site : Site
deriving Repr, DecidableEq

/-- The names that a place declares. -/
def Site.declaring : Site → List Ident
  | .named _ _ id => [id]
  | .function _ id => [id]
  | .struct id fields => id :: fields.map Formal.id
  | .use _ => []

def Site.ids : Site → List Ident
  | .use id => [id]
  | site => site.declaring

mutual

/-- The names that an expression uses. -/
def Expr.uses : Expr → List Ident
  | .name id => [id]
  | .dot loc field => loc.uses ++ [field]
  | .assign lhs rhs => lhs.uses ++ rhs.uses
  | .call callee args => callee :: Expr.usesOfList args
  | .unary _ operand => operand.uses
  | .binary _ lhs rhs => lhs.uses ++ rhs.uses
  | _ => []

def Expr.usesOfList : List Expr → List Ident
  | [] => []
  | expr :: rest => expr.uses ++ Expr.usesOfList rest

end

@[simp] theorem Expr.usesOfList_eq (exprs : List Expr) :
    Expr.usesOfList exprs = exprs.flatMap Expr.uses := by
  induction exprs with
  | nil => rfl
  | cons expr rest ih => rw [Expr.usesOfList, ih, List.flatMap_cons]

/-- The occurrences of names that are used in a scope. -/
def occurrencesOfUses (scope : ScopePath) (ids : List Ident) : List Occurrence :=
  ids.map fun id => ⟨scope, .use id⟩

@[simp] theorem occurrencesOfUses_append (scope : ScopePath) (front back : List Ident) :
    occurrencesOfUses scope (front ++ back) =
      occurrencesOfUses scope front ++ occurrencesOfUses scope back := List.map_append

/-- The occurrences of a list of parameters in the scope of their function. -/
def occurrencesOfFormals (scope : ScopePath) (formals : List Formal) :
    List Occurrence :=
  formals.map fun formal => ⟨scope, .named .parameter formal.type formal.id⟩

/-- The signature that a heading gives to a function. -/
def headingSignature (result : TypeNode) (formals : List Formal) : Signature :=
  ⟨formals.map (·.type.type), result.type⟩

/-- A field that is a variable, as all fields of a parsed program are. -/
def Decl.field? : Decl → Option Formal
  | .var type id => some ⟨type, id⟩
  | _ => none

mutual

/-- The occurrences in a declaration at an index of the declarations of a scope. The
parameters of a function stand in the scope of its body. -/
def Decl.occurrences (scope : ScopePath) (index : Nat) : Decl → List Occurrence
  | .var type id => [⟨scope, .named .variable type id⟩]
  | .func result id formals body =>
      ⟨scope, .function (headingSignature result formals) id⟩
        :: occurrencesOfFormals (.function index :: scope) formals
        ++ body.occurrences (.function index :: scope)
  | .struct id fields => [⟨scope, .struct id (fields.filterMap Decl.field?)⟩]

def Decl.occurrencesOfList (scope : ScopePath) (index : Nat) :
    List Decl → List Occurrence
  | [] => []
  | decl :: rest =>
      decl.occurrences scope index ++ Decl.occurrencesOfList scope (index + 1) rest

def Block.occurrences (scope : ScopePath) : Block → List Occurrence
  | .mk decls stmts =>
      Decl.occurrencesOfList scope 0 decls ++ Stmt.occurrencesOfList scope 0 stmts

/-- The occurrences in a statement at an index of the statements of a scope. -/
def Stmt.occurrences (scope : ScopePath) (index : Nat) : Stmt → List Occurrence
  | .assign expr => occurrencesOfUses scope expr.uses
  | .inc loc => occurrencesOfUses scope loc.uses
  | .dec loc => occurrencesOfUses scope loc.uses
  | .read loc => occurrencesOfUses scope loc.uses
  | .write expr => occurrencesOfUses scope expr.uses
  | .ifThen cond body =>
      occurrencesOfUses scope cond.uses ++ body.occurrences (.body index :: scope)
  | .ifElse cond thenBody elseBody =>
      occurrencesOfUses scope cond.uses ++ thenBody.occurrences (.body index :: scope)
        ++ elseBody.occurrences (.elseBody index :: scope)
  | .while_ cond body =>
      occurrencesOfUses scope cond.uses ++ body.occurrences (.body index :: scope)
  | .call callee args => occurrencesOfUses scope (callee :: args.flatMap Expr.uses)
  | .ret none => []
  | .ret (some value) => occurrencesOfUses scope value.uses

def Stmt.occurrencesOfList (scope : ScopePath) (index : Nat) :
    List Stmt → List Occurrence
  | [] => []
  | stmt :: rest =>
      stmt.occurrences scope index ++ Stmt.occurrencesOfList scope (index + 1) rest

end

/-- The occurrences of a program, in the order of a walk. -/
def Program.occurrences (program : Program) : List Occurrence :=
  Decl.occurrencesOfList [] 0 program.decls

/-- The names that a program declares, in the order of a walk. -/
def Program.declaring (program : Program) : List Ident :=
  program.occurrences.flatMap fun occurrence => occurrence.site.declaring

mutual

/-- Whether the fields of all structs in a declaration are variables. -/
def Decl.hasPlainStructs : Decl → Bool
  | .var _ _ => true
  | .func _ _ _ body => body.hasPlainStructs
  | .struct _ fields => fields.all fun field => field.field?.isSome

def Decl.havePlainStructs : List Decl → Bool
  | [] => true
  | decl :: rest => decl.hasPlainStructs && Decl.havePlainStructs rest

def Block.hasPlainStructs : Block → Bool
  | .mk decls stmts => Decl.havePlainStructs decls && Stmt.havePlainStructs stmts

def Stmt.hasPlainStructs : Stmt → Bool
  | .ifThen _ body => body.hasPlainStructs
  | .ifElse _ thenBody elseBody =>
      thenBody.hasPlainStructs && elseBody.hasPlainStructs
  | .while_ _ body => body.hasPlainStructs
  | _ => true

def Stmt.havePlainStructs : List Stmt → Bool
  | [] => true
  | stmt :: rest => stmt.hasPlainStructs && Stmt.havePlainStructs rest

end

@[simp] theorem Decl.havePlainStructs_eq (decls : List Decl) :
    Decl.havePlainStructs decls = decls.all Decl.hasPlainStructs := by
  induction decls with
  | nil => rfl
  | cons decl rest ih => rw [Decl.havePlainStructs, ih, List.all_cons]

@[simp] theorem Stmt.havePlainStructs_eq (stmts : List Stmt) :
    Stmt.havePlainStructs stmts = stmts.all Stmt.hasPlainStructs := by
  induction stmts with
  | nil => rfl
  | cons stmt rest ih => rw [Stmt.havePlainStructs, ih, List.all_cons]

end MiniLang

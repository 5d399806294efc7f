/-
Induction over trees: what holds of a tree if it holds of the trees inside it holds of
every tree. The trees inside a list are those in the list.
-/
import MiniLang.Tree.Basic

namespace MiniLang

/-- Induction over expressions. -/
theorem Expr.induct {motive : Expr → Prop}
    (int : ∀ span value, motive (.int span value))
    (str : ∀ span text, motive (.str span text))
    (bool : ∀ span value, motive (.bool span value))
    (name : ∀ id, motive (.name id))
    (dot : ∀ loc field, motive loc → motive (.dot loc field))
    (assign : ∀ lhs rhs, motive lhs → motive rhs → motive (.assign lhs rhs))
    (call : ∀ callee args, (∀ arg ∈ args, motive arg) → motive (.call callee args))
    (unary : ∀ op operand, motive operand → motive (.unary op operand))
    (binary : ∀ op lhs rhs, motive lhs → motive rhs → motive (.binary op lhs rhs))
    (expr : Expr) : motive expr := by
  refine @Expr.rec motive (fun exprs => ∀ expr ∈ exprs, motive expr) int str bool name
    dot assign call unary binary (List.forall_mem_nil _) ?_ expr
  exact fun _ _ hfirst hrest => List.forall_mem_cons.mpr ⟨hfirst, hrest⟩

/-- Whether properties hold of what a block declares and of its statements. -/
def Block.All (decl : Decl → Prop) (stmt : Stmt → Prop) : Block → Prop
  | .mk decls stmts => (∀ inner ∈ decls, decl inner) ∧ ∀ inner ∈ stmts, stmt inner

/-- Induction over declarations and statements at once. -/
theorem Stmt.inductBoth {decl : Decl → Prop} {stmt : Stmt → Prop}
    (var : ∀ type id, decl (.var type id))
    (func : ∀ result id formals decls stmts, (∀ inner ∈ decls, decl inner) →
      (∀ inner ∈ stmts, stmt inner) → decl (.func result id formals (.mk decls stmts)))
    (struct : ∀ id fields, (∀ field ∈ fields, decl field) → decl (.struct id fields))
    (assign : ∀ expr, stmt (.assign expr))
    (inc : ∀ loc, stmt (.inc loc))
    (dec : ∀ loc, stmt (.dec loc))
    (read : ∀ loc, stmt (.read loc))
    (write : ∀ expr, stmt (.write expr))
    (ifThen : ∀ cond decls stmts, (∀ inner ∈ decls, decl inner) →
      (∀ inner ∈ stmts, stmt inner) → stmt (.ifThen cond (.mk decls stmts)))
    (ifElse : ∀ cond decls stmts decls' stmts', (∀ inner ∈ decls, decl inner) →
      (∀ inner ∈ stmts, stmt inner) → (∀ inner ∈ decls', decl inner) →
      (∀ inner ∈ stmts', stmt inner) →
      stmt (.ifElse cond (.mk decls stmts) (.mk decls' stmts')))
    (while_ : ∀ cond decls stmts, (∀ inner ∈ decls, decl inner) →
      (∀ inner ∈ stmts, stmt inner) → stmt (.while_ cond (.mk decls stmts)))
    (call : ∀ callee args, stmt (.call callee args))
    (ret : ∀ value, stmt (.ret value)) :
    (∀ tree, decl tree) ∧ ∀ tree, stmt tree := by
  -- Over blocks: each declaration and each statement is a block of its own.
  have hblock : ∀ body, Block.All decl stmt body := by
    refine @Block.rec decl (Block.All decl stmt) stmt
      (fun decls => ∀ inner ∈ decls, decl inner)
      (fun stmts => ∀ inner ∈ stmts, stmt inner)
      var ?func struct (fun _ _ hdecls hstmts => ⟨hdecls, hstmts⟩)
      assign inc dec read write ?ifThen ?ifElse ?while_ call ret
      (List.forall_mem_nil _)
      (fun _ _ hfirst hrest => List.forall_mem_cons.mpr ⟨hfirst, hrest⟩)
      (List.forall_mem_nil _)
      (fun _ _ hfirst hrest => List.forall_mem_cons.mpr ⟨hfirst, hrest⟩)
    case func =>
      rintro result id formals ⟨decls, stmts⟩ ⟨hdecls, hstmts⟩
      exact func result id formals decls stmts hdecls hstmts
    case ifThen =>
      rintro cond ⟨decls, stmts⟩ ⟨hdecls, hstmts⟩
      exact ifThen cond decls stmts hdecls hstmts
    case ifElse =>
      rintro cond ⟨decls, stmts⟩ ⟨decls', stmts'⟩ ⟨hdecls, hstmts⟩ ⟨hdecls', hstmts'⟩
      exact ifElse cond decls stmts decls' stmts' hdecls hstmts hdecls' hstmts'
    case while_ =>
      rintro cond ⟨decls, stmts⟩ ⟨hdecls, hstmts⟩
      exact while_ cond decls stmts hdecls hstmts
  exact ⟨fun tree => (hblock (.mk [tree] [])).1 tree List.mem_cons_self,
    fun tree => (hblock (.mk [] [tree])).2 tree List.mem_cons_self⟩

end MiniLang

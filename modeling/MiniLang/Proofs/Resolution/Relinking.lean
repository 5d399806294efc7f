/-
Links that a program has already make no difference to a walk. A tree is walked over like
the tree without its links, and the names of both are linked in the same way; where no
link is found, a name keeps the one that it had.
-/
import MiniLang.Proofs.Resolution.Agreement
import MiniLang.Proofs.Resolution.Unlinked

namespace MiniLang

variable {α β γ : Type}

/-- How names are linked, side by side with the same names without their links: all of
them keep their link, or all of them are linked to what is found. -/
inductive Relinked : List Ident → List Ident → List Ident → Prop where
  | nil : Relinked [] [] []
  | cons (id : Ident) (found : Option Symbol) {olds freshs news : List Ident}
      (h : Relinked olds freshs news) :
      Relinked (id :: olds) (id.unlinked.linkTo found :: freshs) (id.linkTo found :: news)

section Relinked

variable {olds freshs news : List Ident}

theorem Relinked.append {olds' freshs' news' : List Ident} (h : Relinked olds freshs news)
    (hmore : Relinked olds' freshs' news') :
    Relinked (olds ++ olds') (freshs ++ freshs') (news ++ news') := by
  induction h with
  | nil => exact hmore
  | cons id found _ ih => exact .cons id found ih

theorem Relinked.kept (ids : List Ident) : Relinked ids (ids.map Ident.unlinked) ids := by
  induction ids with
  | nil => exact .nil
  | cons id rest ih => exact .cons id none ih

/-- The link of a name is the one that it has without the links from before, if any, and
otherwise the one from before. -/
theorem Relinked.eq_zipWith (h : Relinked olds freshs news) :
    news = List.zipWith (fun fresh old => old.linkTo fresh.symbol) freshs olds := by
  induction h with
  | nil => rfl
  | cons id found _ ih =>
      rw [List.zipWith_cons_cons, ← ih]
      simp only [Ident.linkTo, Ident.unlinked, Option.or_none]

end Relinked

/-- A tree that was walked over, its answer, and the answer for the tree without its
links. -/
structure Relinking (shape : α → α) (leavesOf : α → List Leaf) (tree answer fresh : α) :
    Prop where
  shape : shape answer = shape tree
  ids : Relinked (idsOf (leavesOf tree)) (idsOf (leavesOf fresh)) (idsOf (leavesOf answer))

section Relinking

variable {shape : α → α} {leavesOf : α → List Leaf} {shape' : β → β}
  {leavesOf' : β → List Leaf} {bothShape : γ → γ} {bothLeaves : γ → List Leaf}
  {tree answer fresh : α} {tree' answer' fresh' : β}

theorem Relinking.one {make : α → γ} (h : Relinking shape leavesOf tree answer fresh)
    (hshape : ∀ {left right}, shape left = shape right →
      bothShape (make left) = bothShape (make right))
    (hleaves : ∀ one, bothLeaves (make one) = leavesOf one) :
    Relinking bothShape bothLeaves (make tree) (make answer) (make fresh) where
  shape := hshape h.shape
  ids := by
    rw [hleaves, hleaves, hleaves]
    exact h.ids

/-- Two trees behind each other make up a tree. -/
theorem Relinking.pair {make : α → β → γ} (h : Relinking shape leavesOf tree answer fresh)
    (hmore : Relinking shape' leavesOf' tree' answer' fresh')
    (hshape : ∀ {left right left' right'}, shape left = shape right →
      shape' left' = shape' right' →
      bothShape (make left left') = bothShape (make right right'))
    (hleaves : ∀ one other, bothLeaves (make one other) = leavesOf one ++ leavesOf' other) :
    Relinking bothShape bothLeaves (make tree tree') (make answer answer')
      (make fresh fresh') where
  shape := hshape h.shape hmore.shape
  ids := by
    simp only [hleaves, idsOf_append]
    exact h.ids.append hmore.ids

end Relinking

/-- Whether a step over a tree and a step over the tree without its links agree. -/
def Resolver.Relinks (shape : α → α) (leavesOf : α → List Leaf) (tree : α)
    (step fresh : Resolver α) : Prop :=
  Resolver.Agrees (Relinking shape leavesOf tree) step fresh

section Relinks

variable {shape : α → α} {leavesOf : α → List Leaf} {shape' : β → β}
  {leavesOf' : β → List Leaf} {bothShape : γ → γ} {bothLeaves : γ → List Leaf}
  {tree : α} {tree' : β} {step fresh : Resolver α} {step' fresh' : Resolver β}

theorem Resolver.Relinks.one {make : α → γ}
    (h : Resolver.Relinks shape leavesOf tree step fresh)
    (hshape : ∀ {left right}, shape left = shape right →
      bothShape (make left) = bothShape (make right))
    (hleaves : ∀ one, bothLeaves (make one) = leavesOf one) :
    Resolver.Relinks bothShape bothLeaves (make tree) (do return make (← step))
      (do return make (← fresh)) :=
  Resolver.Agrees.last h fun _ _ hanswer => hanswer.one hshape hleaves

theorem Resolver.Relinks.pair {make : α → β → γ}
    (h : Resolver.Relinks shape leavesOf tree step fresh)
    (hmore : Resolver.Relinks shape' leavesOf' tree' step' fresh')
    (hshape : ∀ {left right left' right'}, shape left = shape right →
      shape' left' = shape' right' →
      bothShape (make left left') = bothShape (make right right'))
    (hleaves : ∀ one other, bothLeaves (make one other) = leavesOf one ++ leavesOf' other) :
    Resolver.Relinks bothShape bothLeaves (make tree tree') (do
      let answer ← step
      return make answer (← step')) (do
      let answer ← fresh
      return make answer (← fresh')) :=
  Resolver.Agrees.bind h fun _ _ hanswer => Resolver.Agrees.last hmore
    fun _ _ hother => hanswer.pair hother hshape hleaves

/-- Trees behind each other agree if each one does. -/
theorem Resolver.Relinks.list (resolve : α → Resolver α)
    (resolveList : List α → Resolver (List α)) (hnil : resolveList [] = Pure.pure [])
    (hcons : ∀ first rest, resolveList (first :: rest) = do
      let first ← resolve first
      return first :: (← resolveList rest)) {trees : List α}
    (h : ∀ tree ∈ trees,
      Resolver.Relinks shape leavesOf tree (resolve tree) (resolve (shape tree))) :
    Resolver.Relinks (List.map shape) (List.flatMap leavesOf) trees (resolveList trees)
      (resolveList (trees.map shape)) := by
  induction trees with
  | nil =>
      rw [List.map_nil, hnil]
      exact .pure ⟨rfl, .nil⟩
  | cons first rest ih =>
      obtain ⟨hfirst, hrest⟩ := List.forall_mem_cons.mp h
      rw [List.map_cons, hcons, hcons]
      exact hfirst.pair (ih hrest) (congrArg₂ List.cons) fun _ _ => List.flatMap_cons

end Relinks

section Names

def Ident.leaves (id : Ident) : List Leaf := [.name id]

theorem Ident.ids_leaves (id : Ident) : idsOf id.leaves = [id] := rfl

theorem Ident.relinking (id : Ident) (found : Option Symbol) :
    Relinking Ident.unlinked Ident.leaves id (id.linkTo found) (id.unlinked.linkTo found)
    where
  shape := rfl
  ids := .cons id found .nil

theorem Ident.relinks (id : Ident) :
    Resolver.Relinks Ident.unlinked Ident.leaves id id.resolve id.unlinked.resolve := by
  refine Resolver.Agrees.unlessHalted (.get fun walk => ?_) (id.relinking none)
  have hname : id.unlinked.name = id.name := rfl
  rw [hname]
  cases walk.table.lookup id.name with
  | some symbol => exact .pure (id.relinking (some symbol))
  | none => exact (Resolver.Agrees.refl _).bind fun _ _ _ => .pure (id.relinking none)

end Names

section Expressions

theorem Expr.relinks_list {exprs : List Expr}
    (h : ∀ expr ∈ exprs, Resolver.Relinks Expr.unlinked Expr.leaves expr expr.resolve
      expr.unlinked.resolve) :
    Resolver.Relinks (List.map Expr.unlinked) (List.flatMap Expr.leaves) exprs
      (Expr.resolveList exprs) (Expr.resolveList (exprs.map Expr.unlinked)) :=
  Resolver.Relinks.list Expr.resolve Expr.resolveList rfl (fun _ _ => rfl) h

theorem Expr.relinks (expr : Expr) :
    Resolver.Relinks Expr.unlinked Expr.leaves expr expr.resolve expr.unlinked.resolve := by
  induction expr using Expr.induct with
  | int span value => exact .pure ⟨rfl, .nil⟩
  | str span text => exact .pure ⟨rfl, .nil⟩
  | bool span value => exact .pure ⟨rfl, .nil⟩
  | name id =>
      exact id.relinks.one (congrArg Expr.name) fun _ => rfl
  | dot loc field ih =>
      exact ih.pair field.relinks (congrArg₂ Expr.dot) fun _ _ => rfl
  | assign lhs rhs ihlhs ihrhs =>
      exact ihlhs.pair ihrhs (congrArg₂ Expr.assign) fun _ _ => rfl
  | call callee args ih =>
      rw [Expr.unlinked_call]
      refine callee.relinks.pair (Expr.relinks_list ih) (fun h h' => ?_) fun _ _ => ?_
      · rw [Expr.unlinked_call, Expr.unlinked_call, h, h']
      · rw [Expr.leaves, Expr.leavesOfList_eq]
        rfl
  | unary op operand ih =>
      exact ih.one (congrArg (Expr.unary op)) fun _ => rfl
  | binary op lhs rhs ihlhs ihrhs =>
      exact ihlhs.pair ihrhs (congrArg₂ (Expr.binary op)) fun _ _ => rfl

end Expressions

section Declarations

theorem TypeNode.relinking (type : TypeNode) :
    Relinking TypeNode.unlinked TypeNode.leaves type type type.unlinked where
  shape := rfl
  ids := by
    rw [TypeNode.ids_unlinked]
    exact .kept _

theorem Decl.relinking_kept (decl : Decl) :
    Relinking Decl.unlinked Decl.leaves decl decl decl.unlinked where
  shape := rfl
  ids := by
    rw [ids_unlinked_both.1]
    exact .kept _

theorem Resolver.declareVariable_relinks (kind : Ty → SymbolKind) (type : TypeNode)
    (id : Ident) :
    Resolver.Agrees (fun answer fresh =>
        Relinking Ident.unlinked Ident.leaves id answer.1 fresh.1 ∧ answer.2 = fresh.2)
      (Resolver.declareVariable kind type id)
      (Resolver.declareVariable kind type.unlinked id.unlinked) := by
  refine Resolver.Agrees.unlessHalted ?_ ⟨id.relinking none, rfl⟩
  rw [TypeNode.type_unlinked]
  split
  · exact (Resolver.Agrees.refl _).bind fun _ _ _ => .pure ⟨id.relinking none, rfl⟩
  · refine (Resolver.Agrees.refl _).bind ?_
    rintro found _ rfl
    exact .pure ⟨id.relinking found, rfl⟩

theorem Resolver.declareFormals_relinks (formals : List Formal) :
    Resolver.Relinks (List.map Formal.unlinked) (List.flatMap Formal.leaves) formals
      (Resolver.declareFormals formals)
      (Resolver.declareFormals (formals.map Formal.unlinked)) := by
  induction formals with
  | nil => exact .pure ⟨rfl, .nil⟩
  | cons formal rest ih =>
      rw [List.map_cons, Resolver.declareFormals, Resolver.declareFormals]
      refine (Resolver.declareVariable_relinks _ formal.type formal.id).bind
        fun declared fresh hdeclared =>
          Resolver.Agrees.last ih fun others fresh' hothers => ?_
      have hformal : Relinking Formal.unlinked Formal.leaves ⟨formal.type, formal.id⟩
          ⟨formal.type, declared.1⟩ ⟨formal.type.unlinked, fresh.1⟩ :=
        formal.type.relinking.pair hdeclared.1 (congrArg₂ Formal.mk) fun _ _ => rfl
      exact hformal.pair hothers (congrArg₂ List.cons) fun _ _ => List.flatMap_cons

theorem types_unlinked (formals : List Formal) :
    (formals.map Formal.unlinked).map (fun formal => formal.type.type) =
      formals.map fun formal => formal.type.type := by
  rw [List.map_map]
  exact List.map_congr_left fun formal _ => formal.type.type_unlinked

theorem Resolver.declareFunction_relinks (result : TypeNode) (id : Ident)
    (formals : List Formal) :
    Resolver.Relinks Ident.unlinked Ident.leaves id
      (Resolver.declareFunction result id formals)
      (Resolver.declareFunction result.unlinked id.unlinked
        (formals.map Formal.unlinked)) := by
  refine Resolver.Agrees.unlessHalted ?_ (id.relinking none)
  rw [types_unlinked, TypeNode.type_unlinked]
  refine (Resolver.Agrees.refl _).bind ?_
  rintro found _ rfl
  exact .pure (id.relinking found)

end Declarations

/-- Whether a declaration is resolved like the one without its links. The symbols that come
with the answers are the same. -/
def Decl.Relinks (decl : Decl) : Prop :=
  Resolver.Agrees (fun answer fresh =>
      Relinking Decl.unlinked Decl.leaves decl answer.1 fresh.1 ∧ answer.2 = fresh.2)
    decl.resolve decl.unlinked.resolve

def Stmt.Relinks (stmt : Stmt) : Prop :=
  Resolver.Relinks Stmt.unlinked Stmt.leaves stmt stmt.resolve stmt.unlinked.resolve

section Trees

theorem Decl.relinks_list {decls : List Decl} (h : ∀ decl ∈ decls, decl.Relinks) :
    Resolver.Agrees (fun answer fresh =>
        Relinking (List.map Decl.unlinked) (List.flatMap Decl.leaves) decls answer.1 fresh.1
          ∧ answer.2 = fresh.2)
      (Decl.resolveList decls) (Decl.resolveList (decls.map Decl.unlinked)) := by
  induction decls with
  | nil => exact .pure ⟨⟨rfl, .nil⟩, rfl⟩
  | cons decl rest ih =>
      obtain ⟨hdecl, hrest⟩ := List.forall_mem_cons.mp h
      rw [List.map_cons, Decl.resolveList, Decl.resolveList]
      refine hdecl.bind fun first fresh hfirst =>
        (ih hrest).last fun others fresh' hothers => ⟨?_, ?_⟩
      · exact hfirst.1.pair hothers.1 (congrArg₂ List.cons) fun _ _ => List.flatMap_cons
      · exact congrArg₂ (fun symbol symbols => symbol.toList ++ symbols) hfirst.2 hothers.2

theorem Stmt.relinks_list {stmts : List Stmt} (h : ∀ stmt ∈ stmts, stmt.Relinks) :
    Resolver.Relinks (List.map Stmt.unlinked) (List.flatMap Stmt.leaves) stmts
      (Stmt.resolveList stmts) (Stmt.resolveList (stmts.map Stmt.unlinked)) :=
  Resolver.Relinks.list Stmt.resolve Stmt.resolveList rfl (fun _ _ => rfl) h

theorem Block.relinks {decls : List Decl} {stmts : List Stmt}
    (hdecls : ∀ decl ∈ decls, decl.Relinks) (hstmts : ∀ stmt ∈ stmts, stmt.Relinks) :
    Resolver.Relinks Block.unlinked Block.leaves (.mk decls stmts)
      (Block.mk decls stmts).resolve (Block.mk decls stmts).unlinked.resolve := by
  rw [Block.unlinked_mk, Block.resolve, Block.resolve]
  refine (Decl.relinks_list hdecls).bind fun first fresh hfirst =>
    Resolver.Agrees.last (Stmt.relinks_list hstmts) fun others fresh' hothers => ?_
  refine hfirst.1.pair hothers (fun h h' => ?_) fun _ _ => ?_
  · rw [Block.unlinked_mk, Block.unlinked_mk, h, h']
  · rw [Block.leaves, Decl.leavesOfList_eq, Stmt.leavesOfList_eq]

/-- A block in a scope of its own. -/
theorem Block.relinks_scoped {decls : List Decl} {stmts : List Stmt}
    (hdecls : ∀ decl ∈ decls, decl.Relinks) (hstmts : ∀ stmt ∈ stmts, stmt.Relinks) :
    Resolver.Relinks Block.unlinked Block.leaves (.mk decls stmts)
      (Resolver.scoped (Block.mk decls stmts).resolve)
      (Resolver.scoped (Block.mk decls stmts).unlinked.resolve) :=
  Resolver.Agrees.scoped (Block.relinks hdecls hstmts) (Block.keeps_resolve _)
    (Block.keeps_resolve _)

/-- The parameters of a function and its body in a scope of their own. -/
theorem Resolver.relinks_inner (formals : List Formal) {body : Block}
    (hbody : Resolver.Relinks Block.unlinked Block.leaves body body.resolve
      body.unlinked.resolve) :
    Resolver.Relinks (Prod.map (List.map Formal.unlinked) Block.unlinked)
      (fun inner => inner.1.flatMap Formal.leaves ++ inner.2.leaves) (formals, body)
      (Resolver.scoped do
        let formals ← Resolver.declareFormals formals
        return (formals, ← body.resolve))
      (Resolver.scoped do
        let formals ← Resolver.declareFormals (formals.map Formal.unlinked)
        return (formals, ← body.unlinked.resolve)) := by
  have hpair : Resolver.Relinks (Prod.map (List.map Formal.unlinked) Block.unlinked)
      (fun inner => inner.1.flatMap Formal.leaves ++ inner.2.leaves) (formals, body) _ _ :=
    (Resolver.declareFormals_relinks formals).pair hbody (congrArg₂ Prod.mk) fun _ _ => rfl
  exact Resolver.Agrees.scoped hpair (Resolver.keeps_inner _ _) (Resolver.keeps_inner _ _)

theorem Decl.relinks_func (result : TypeNode) (id : Ident) (formals : List Formal)
    {decls : List Decl} {stmts : List Stmt} (hdecls : ∀ decl ∈ decls, decl.Relinks)
    (hstmts : ∀ stmt ∈ stmts, stmt.Relinks) :
    (Decl.func result id formals (.mk decls stmts)).Relinks := by
  have hinner := Resolver.relinks_inner formals (Block.relinks hdecls hstmts)
  rw [Decl.Relinks, Decl.unlinked_func, Decl.resolve, Decl.resolve]
  refine (Resolver.declareFunction_relinks result id formals).bind
    fun answer fresh hanswer => hinner.last fun inner fresh' hinner => ⟨⟨?_, ?_⟩, rfl⟩
  · obtain ⟨hformals, hbody⟩ := Prod.mk.inj hinner.shape
    rw [Decl.unlinked_func, Decl.unlinked_func, hanswer.shape, hformals, hbody]
  · have hids := result.relinking.ids.append (hanswer.ids.append hinner.ids)
    rw [Ident.ids_leaves, Ident.ids_leaves, Ident.ids_leaves] at hids
    simpa only [Decl.leaves, idsOf_append, idsOf_name, List.append_assoc,
      List.cons_append, List.nil_append] using hids

theorem Decl.relinks_struct (id : Ident) {fields : List Decl}
    (hfields : ∀ field ∈ fields, field.Relinks) : (Decl.struct id fields).Relinks := by
  have hkept := (Decl.struct id fields).relinking_kept
  rw [Decl.unlinked_struct] at hkept
  rw [Decl.Relinks, Decl.unlinked_struct, Decl.resolve, Decl.resolve]
  refine Resolver.Agrees.unlessHalted (.get fun walk => ?_) ⟨hkept, rfl⟩
  have hname : id.unlinked.name = id.name := rfl
  rw [hname]
  cases walk.structs.refusal? id.name with
  | some fault => exact (Resolver.Agrees.refl _).bind fun _ _ _ => .pure ⟨hkept, rfl⟩
  | none =>
      refine (Resolver.Agrees.refl _).bind fun _ _ _ => ?_
      refine ((Decl.relinks_list hfields).withTable .new).bind ?_
      rintro ⟨table, answer, declared⟩ ⟨_, fresh, _⟩ ⟨rfl, hanswer, rfl⟩
      refine (Resolver.Agrees.refl _).bind fun _ _ _ => .pure ⟨?_, rfl⟩
      refine (id.relinking (some ⟨id.name, .struct, id.span⟩)).pair hanswer
        (fun h h' => ?_) fun _ _ => ?_
      · rw [Decl.unlinked_struct, Decl.unlinked_struct, h, h']
      · rw [Decl.leaves, Decl.leavesOfList_eq]
        rfl

/-- Every tree is resolved like the tree without its links. -/
theorem relinks_both : (∀ decl : Decl, decl.Relinks) ∧ ∀ stmt : Stmt, stmt.Relinks := by
  apply Stmt.inductBoth
  case var =>
    intro type id
    rw [Decl.Relinks, Decl.unlinked_var, Decl.resolve, Decl.resolve]
    refine (Resolver.declareVariable_relinks .var type id).last
      fun answer fresh hanswer => ⟨?_, hanswer.2⟩
    exact type.relinking.pair hanswer.1 (congrArg₂ Decl.var) fun _ _ => rfl
  case func =>
    intro result id formals decls stmts ihdecls ihstmts
    exact Decl.relinks_func result id formals ihdecls ihstmts
  case struct =>
    intro id fields ihfields
    exact Decl.relinks_struct id ihfields
  case assign => exact fun expr => expr.relinks.one (congrArg Stmt.assign) fun _ => rfl
  case inc => exact fun loc => loc.relinks.one (congrArg Stmt.inc) fun _ => rfl
  case dec => exact fun loc => loc.relinks.one (congrArg Stmt.dec) fun _ => rfl
  case read => exact fun loc => loc.relinks.one (congrArg Stmt.read) fun _ => rfl
  case write => exact fun expr => expr.relinks.one (congrArg Stmt.write) fun _ => rfl
  case ifThen =>
    intro cond decls stmts ihdecls ihstmts
    exact cond.relinks.pair (Block.relinks_scoped ihdecls ihstmts)
      (congrArg₂ Stmt.ifThen) fun _ _ => rfl
  case ifElse =>
    intro cond decls stmts decls' stmts' ihdecls ihstmts ihdecls' ihstmts'
    rw [Stmt.Relinks, Stmt.unlinked_ifElse, Stmt.resolve, Stmt.resolve]
    refine cond.relinks.bind fun answer fresh hanswer =>
      (Block.relinks_scoped ihdecls ihstmts).bind fun first fresh' hfirst =>
        (Block.relinks_scoped ihdecls' ihstmts').last fun last fresh'' hlast => ⟨?_, ?_⟩
    · rw [Stmt.unlinked_ifElse, Stmt.unlinked_ifElse, hanswer.shape, hfirst.shape,
        hlast.shape]
    · simp only [Stmt.leaves, idsOf_append]
      exact (hanswer.ids.append hfirst.ids).append hlast.ids
  case while_ =>
    intro cond decls stmts ihdecls ihstmts
    exact cond.relinks.pair (Block.relinks_scoped ihdecls ihstmts)
      (congrArg₂ Stmt.while_) fun _ _ => rfl
  case call =>
    intro callee args
    have hargs := Expr.relinks_list fun arg (_ : arg ∈ args) => arg.relinks
    exact callee.relinks.pair hargs (congrArg₂ Stmt.call) fun _ _ => rfl
  case ret =>
    intro value
    cases value with
    | none => exact .pure ⟨rfl, .nil⟩
    | some value =>
        exact value.relinks.one (congrArg fun value => Stmt.ret (some value)) fun _ => rfl

end Trees

/-- The names of a program and those of the program without its links are linked side by
side. -/
theorem Program.relinking (program : Program) :
    Relinking Program.unlinked Program.leaves program program.resolve.program
      program.unlinked.resolve.program := by
  obtain ⟨decls⟩ := program
  have hlist := Decl.relinks_list fun decl (_ : decl ∈ decls) => relinks_both.1 decl
  exact (hlist .start).2.1.one (congrArg Program.mk) fun _ => rfl

end MiniLang

/-
Other names for a program. A renaming gives every name another one, and with it the types,
symbols, trees and tables in which names occur; what is found in a table is found in the
renamed table under the renamed name.
-/
import MiniLang.Proofs.Resolution.Occurrence
import MiniLang.Tree.Relabel
import Mathlib.Logic.Function.Basic

namespace MiniLang

/-- Other names for names: different ones for different names, none for the empty name, and
such that the words that name types are mixed up with no other names. -/
structure Renaming where
  name : String → String
  injective : Function.Injective name
  empty : name "" = ""
  reserved : ∀ word, isReservedTypeName (name word) = isReservedTypeName word

def Renaming.same : Renaming := ⟨id, Function.injective_id, rfl, fun _ => rfl⟩

theorem Renaming.eq_empty_iff (anew : Renaming) {name : String} :
    anew.name name = "" ↔ name = "" := by
  constructor
  · intro h
    exact anew.injective (h.trans anew.empty.symm)
  · rintro rfl
    exact anew.empty

theorem Renaming.beq_name (anew : Renaming) (name other : String) :
    (anew.name name == anew.name other) = (name == other) := by
  rw [Bool.eq_iff_iff, beq_iff_eq, beq_iff_eq]
  exact anew.injective.eq_iff

section Rename

variable (anew : Renaming)

def Ty.rename : Ty → Ty
  | .struct name => .struct (anew.name name)
  | type => type

def Signature.rename (signature : Signature) : Signature :=
  ⟨signature.params.map (Ty.rename anew), signature.result.rename anew⟩

def SymbolKind.rename : SymbolKind → SymbolKind
  | .var type => .var (type.rename anew)
  | .param type => .param (type.rename anew)
  | .struct => .struct
  | .function signature => .function (signature.rename anew)

def Symbol.rename (symbol : Symbol) : Symbol :=
  ⟨anew.name symbol.name, symbol.kind.rename anew, symbol.span⟩

/-- Another name in the same place, with the link renamed too. -/
def Ident.rename (id : Ident) : Ident :=
  ⟨anew.name id.name, id.span, id.symbol.map (Symbol.rename anew)⟩

def NameError.rename (error : NameError) : NameError :=
  ⟨error.fault, anew.name error.name, error.span⟩

def TableError.rename : TableError → TableError
  | .duplicateName name => .duplicateName (anew.name name)
  | refusal => refusal

def Expr.rename : Expr → Expr := Expr.relabel (Ident.rename anew) fun span => span

def TypeNode.rename : TypeNode → TypeNode := TypeNode.relabel (Ident.rename anew)

def Formal.rename : Formal → Formal := Formal.relabel (Ident.rename anew)

def Decl.rename : Decl → Decl := Decl.relabel (Ident.rename anew) fun span => span

def Stmt.rename : Stmt → Stmt := Stmt.relabel (Ident.rename anew) fun span => span

def Block.rename : Block → Block := Block.relabel (Ident.rename anew) fun span => span

def Program.rename : Program → Program :=
  Program.relabel (Ident.rename anew) fun span => span

theorem Expr.rename_call (callee : Ident) (args : List Expr) :
    (Expr.call callee args).rename anew =
      .call (callee.rename anew) (args.map (Expr.rename anew)) := by
  rw [Expr.rename, Expr.relabel, Expr.relabelList_eq]

theorem Decl.rename_func (result : TypeNode) (id : Ident) (formals : List Formal)
    (body : Block) : (Decl.func result id formals body).rename anew =
      .func (result.rename anew) (id.rename anew) (formals.map (Formal.rename anew))
        (body.rename anew) := rfl

theorem Stmt.rename_ifElse (cond : Expr) (thenBody elseBody : Block) :
    (Stmt.ifElse cond thenBody elseBody).rename anew =
      .ifElse (cond.rename anew) (thenBody.rename anew) (elseBody.rename anew) := rfl

theorem Decl.rename_struct (id : Ident) (fields : List Decl) :
    (Decl.struct id fields).rename anew =
      .struct (id.rename anew) (fields.map (Decl.rename anew)) := by
  rw [Decl.rename, Decl.relabel, Decl.relabelList_eq]

theorem Block.rename_mk (decls : List Decl) (stmts : List Stmt) :
    (Block.mk decls stmts).rename anew =
      .mk (decls.map (Decl.rename anew)) (stmts.map (Stmt.rename anew)) := by
  rw [Block.rename, Block.relabel, Decl.relabelList_eq, Stmt.relabelList_eq]
  rfl

theorem TypeNode.type_rename (type : TypeNode) :
    (type.rename anew).type = type.type.rename anew := by
  cases type <;> rfl

theorem Ty.rename_eq_void {type : Ty} : type.rename anew = .void ↔ type = .void := by
  cases type <;> simp [Ty.rename]

/-- The signature that a renamed heading gives is the renamed signature. -/
theorem headingSignature_rename (result : TypeNode) (formals : List Formal) :
    headingSignature (result.rename anew) (formals.map (Formal.rename anew)) =
      (headingSignature result formals).rename anew := by
  have htypes : (formals.map (Formal.rename anew)).map (·.type.type) =
      (formals.map (·.type.type)).map (Ty.rename anew) := by
    rw [List.map_map, List.map_map]
    exact List.map_congr_left fun formal _ => formal.type.type_rename anew
  rw [headingSignature, htypes, TypeNode.type_rename]
  rfl

theorem Ident.rename_linkTo (id : Ident) (found : Option Symbol) :
    (id.linkTo found).rename anew =
      (id.rename anew).linkTo (found.map (Symbol.rename anew)) := by
  cases found <;> rfl

end Rename

section Tables

variable (anew : Renaming)

def Frame.rename (frame : Frame) : Frame :=
  frame.map fun entry => (anew.name entry.1, entry.2.rename anew)

def SymbolTable.rename (table : SymbolTable) : SymbolTable :=
  ⟨table.frames.map (Frame.rename anew)⟩

def StructInfo.rename (info : StructInfo) : StructInfo :=
  ⟨info.symbol.rename anew, info.fields.rename anew⟩

def StructRegistry.rename (registry : StructRegistry) : StructRegistry :=
  ⟨registry.entries.map (StructInfo.rename anew)⟩

theorem Frame.lookup_rename (frame : Frame) (name : String) :
    (frame.rename anew).lookup (anew.name name) =
      (frame.lookup name).map (Symbol.rename anew) := by
  induction frame with
  | nil => rfl
  | cons entry rest ih =>
      obtain ⟨key, symbol⟩ := entry
      have hcons : Frame.rename anew ((key, symbol) :: rest) =
          (anew.name key, symbol.rename anew) :: Frame.rename anew rest := rfl
      rw [hcons, List.lookup_cons, List.lookup_cons, anew.beq_name]
      cases name == key with
      | true => rfl
      | false => exact ih

theorem SymbolTable.lookup_rename (table : SymbolTable) (name : String) :
    (table.rename anew).lookup (anew.name name) =
      (table.lookup name).map (Symbol.rename anew) := by
  obtain ⟨frames⟩ := table
  induction frames with
  | nil => rfl
  | cons frame outer ih =>
      rw [SymbolTable.lookup, SymbolTable.lookup] at ih ⊢
      rw [SymbolTable.rename, List.map_cons, List.findSome?_cons, List.findSome?_cons,
        Frame.lookup_rename]
      cases frame.lookup name with
      | some symbol => rfl
      | none => exact ih

theorem SymbolTable.lookupInnermost_rename (table : SymbolTable) (name : String) :
    (table.rename anew).lookupInnermost (anew.name name) =
      (table.lookupInnermost name).map (Option.map (Symbol.rename anew)) := by
  obtain ⟨frames⟩ := table
  cases frames with
  | nil => rfl
  | cons frame outer => exact congrArg Except.ok (frame.lookup_rename anew name)

theorem StructRegistry.contains_rename (registry : StructRegistry) (name : String) :
    (registry.rename anew).contains (anew.name name) = registry.contains name := by
  rw [StructRegistry.contains, StructRegistry.rename, List.any_map, StructRegistry.contains]
  congr 1
  funext info
  exact anew.beq_name info.symbol.name name

/-- A renamed struct is refused for the same reason. -/
theorem StructRegistry.refusal?_rename (registry : StructRegistry) (name : String) :
    (registry.rename anew).refusal? (anew.name name) = registry.refusal? name := by
  rw [StructRegistry.refusal?, anew.reserved, StructRegistry.contains_rename,
    StructRegistry.refusal?]

theorem StructRegistry.register_rename (registry : StructRegistry) (info : StructInfo) :
    (registry.rename anew).register (info.rename anew) =
      match registry.register info with
      | .ok after => .ok (after.rename anew)
      | .error reason => .error (reason.rename anew) := by
  have hname : (info.rename anew).symbol.name = anew.name info.symbol.name := rfl
  rw [StructRegistry.register, StructRegistry.register, hname,
    StructRegistry.contains_rename]
  by_cases hempty : info.symbol.name = ""
  · rw [if_pos (anew.eq_empty_iff.mpr hempty), if_pos hempty]
    rfl
  · rw [if_neg (mt anew.eq_empty_iff.mp hempty), if_neg hempty]
    cases registry.contains info.symbol.name with
    | true => rfl
    | false =>
        simp only [Bool.false_eq_true, if_false, StructRegistry.rename, List.map_append,
          List.map_singleton]

theorem StructRegistry.setFields_rename (registry : StructRegistry) (name : String)
    (fields : SymbolTable) :
    (registry.rename anew).setFields (anew.name name) (fields.rename anew) =
      (registry.setFields name fields).rename anew := by
  rw [StructRegistry.setFields, StructRegistry.rename, StructRegistry.setFields,
    StructRegistry.rename, List.map_map, List.map_map]
  congr 1
  apply List.map_congr_left
  intro info _
  have hname : (info.rename anew).symbol.name = anew.name info.symbol.name := rfl
  simp only [Function.comp, hname, anew.injective.eq_iff]
  split <;> rfl

end Tables

section Same

theorem Ty.rename_same (type : Ty) : type.rename .same = type := by
  cases type <;> rfl

theorem Signature.rename_same (signature : Signature) :
    signature.rename .same = signature := by
  have hparams : signature.params.map (Ty.rename .same) = signature.params :=
    List.map_id'' Ty.rename_same signature.params
  rw [Signature.rename, hparams, Ty.rename_same]

@[simp] theorem Symbol.rename_same (symbol : Symbol) : symbol.rename .same = symbol := by
  obtain ⟨name, kind, span⟩ := symbol
  have hkind : kind.rename .same = kind := by
    cases kind with
    | var type => rw [SymbolKind.rename, Ty.rename_same]
    | param type => rw [SymbolKind.rename, Ty.rename_same]
    | struct => rfl
    | function signature => rw [SymbolKind.rename, Signature.rename_same]
  rw [Symbol.rename, hkind]
  rfl

theorem Symbol.map_rename_same (symbol : Option Symbol) :
    symbol.map (Symbol.rename .same) = symbol := by
  cases symbol with
  | none => rfl
  | some symbol => rw [Option.map_some, Symbol.rename_same]

theorem Ident.rename_same (id : Ident) : id.rename .same = id := by
  rw [Ident.rename, Symbol.map_rename_same]
  rfl

theorem Frame.rename_same (frame : Frame) : frame.rename .same = frame := by
  have hentry (entry : String × Symbol) :
      (Renaming.same.name entry.1, entry.2.rename .same) = entry :=
    Prod.ext rfl entry.2.rename_same
  exact List.map_id'' hentry frame

theorem StructRegistry.rename_same (registry : StructRegistry) :
    registry.rename .same = registry := by
  have hinfo (info : StructInfo) : info.rename .same = info := by
    obtain ⟨symbol, ⟨frames⟩⟩ := info
    have hframes : frames.map (Frame.rename .same) = frames :=
      List.map_id'' Frame.rename_same frames
    rw [StructInfo.rename, Symbol.rename_same, SymbolTable.rename, hframes]
  rw [StructRegistry.rename, List.map_id'' hinfo]

theorem NameError.map_rename_same (errors : List NameError) :
    errors.map (NameError.rename .same) = errors := List.map_id errors

theorem map_rename_same {α : Type} {rename : α → α} {trees : List α}
    (h : ∀ tree ∈ trees, rename tree = tree) : trees.map rename = trees :=
  (List.map_congr_left h).trans (List.map_id trees)

theorem Expr.rename_same (expr : Expr) : expr.rename .same = expr := by
  have hids := Ident.rename_same
  induction expr using Expr.induct with
  | int span value => rfl
  | str span text => rfl
  | bool span value => rfl
  | name id => exact congrArg Expr.name (hids id)
  | dot loc field ih => exact congrArg₂ Expr.dot ih (hids field)
  | assign lhs rhs ihlhs ihrhs => exact congrArg₂ Expr.assign ihlhs ihrhs
  | call callee args ih => rw [Expr.rename_call, hids, map_rename_same ih]
  | unary op operand ih => exact congrArg (Expr.unary op) ih
  | binary op lhs rhs ihlhs ihrhs => exact congrArg₂ (Expr.binary op) ihlhs ihrhs

theorem TypeNode.rename_same (type : TypeNode) : type.rename .same = type := by
  cases type with
  | struct id => exact congrArg TypeNode.struct id.rename_same
  | _ => rfl

theorem Formal.rename_same (formal : Formal) : formal.rename .same = formal :=
  congrArg₂ Formal.mk formal.type.rename_same formal.id.rename_same

theorem Block.rename_same {decls : List Decl} {stmts : List Stmt}
    (hdecls : ∀ decl ∈ decls, decl.rename .same = decl)
    (hstmts : ∀ stmt ∈ stmts, stmt.rename .same = stmt) :
    (Block.mk decls stmts).rename .same = .mk decls stmts := by
  rw [Block.rename_mk, map_rename_same hdecls, map_rename_same hstmts]

/-- Without other names, a tree stays as it is. -/
theorem rename_same_both :
    (∀ decl : Decl, decl.rename .same = decl) ∧ ∀ stmt : Stmt, stmt.rename .same = stmt := by
  apply Stmt.inductBoth
  case var => exact fun type id => congrArg₂ Decl.var type.rename_same id.rename_same
  case func =>
    intro result id formals decls stmts ihdecls ihstmts
    have hformals : formals.map (Formal.rename .same) = formals :=
      map_rename_same fun formal _ => formal.rename_same
    rw [Decl.rename_func, result.rename_same, id.rename_same, hformals,
      Block.rename_same ihdecls ihstmts]
  case struct =>
    intro id fields ih
    rw [Decl.rename_struct, id.rename_same, map_rename_same ih]
  case assign => exact fun expr => congrArg Stmt.assign expr.rename_same
  case inc => exact fun loc => congrArg Stmt.inc loc.rename_same
  case dec => exact fun loc => congrArg Stmt.dec loc.rename_same
  case read => exact fun loc => congrArg Stmt.read loc.rename_same
  case write => exact fun expr => congrArg Stmt.write expr.rename_same
  case ifThen =>
    intro cond decls stmts ihdecls ihstmts
    exact congrArg₂ Stmt.ifThen cond.rename_same (Block.rename_same ihdecls ihstmts)
  case ifElse =>
    intro cond decls stmts decls' stmts' ihdecls ihstmts ihdecls' ihstmts'
    rw [Stmt.rename_ifElse, cond.rename_same, Block.rename_same ihdecls ihstmts,
      Block.rename_same ihdecls' ihstmts']
  case while_ =>
    intro cond decls stmts ihdecls ihstmts
    exact congrArg₂ Stmt.while_ cond.rename_same (Block.rename_same ihdecls ihstmts)
  case call =>
    intro callee args
    exact congrArg₂ Stmt.call callee.rename_same
      (map_rename_same fun arg _ => arg.rename_same)
  case ret =>
    intro value
    cases value with
    | none => rfl
    | some value => exact congrArg (fun value => Stmt.ret (some value)) value.rename_same

end Same

end MiniLang

/-
The struct types of a program, each with a table of its own for its fields.
-/
import MiniLang.Scope.Table

namespace MiniLang

/-- A struct type: its symbol and the table of its fields. -/
structure StructInfo where
  symbol : Symbol
  fields : SymbolTable
deriving Repr, DecidableEq

def StructInfo.field? (info : StructInfo) (name : String) : Option Symbol :=
  info.fields.lookup name

/-- The struct types of a program, the first registered one first. -/
structure StructRegistry where
  entries : List StructInfo
deriving Repr, DecidableEq

def StructRegistry.empty : StructRegistry := ⟨[]⟩

/-- The struct type with a given name. -/
def StructRegistry.get? (registry : StructRegistry) (name : String) :
    Option StructInfo :=
  registry.entries.find? (·.symbol.name == name)

def StructRegistry.contains (registry : StructRegistry) (name : String) : Bool :=
  registry.entries.any (·.symbol.name == name)

/-- Register a struct type under the name of its symbol. -/
def StructRegistry.register (registry : StructRegistry) (info : StructInfo) :
    Except TableError StructRegistry :=
  if info.symbol.name = "" then .error .absentName
  else if registry.contains info.symbol.name then
    .error (.duplicateName info.symbol.name)
  else .ok ⟨registry.entries ++ [info]⟩

def StructRegistry.lookup (registry : StructRegistry) (name : String) :
    Option Symbol :=
  (registry.get? name).map StructInfo.symbol

/-- Give a struct type another table of fields. -/
def StructRegistry.setFields (registry : StructRegistry) (name : String)
    (fields : SymbolTable) : StructRegistry :=
  ⟨registry.entries.map fun info =>
    if info.symbol.name = name then ⟨info.symbol, fields⟩ else info⟩

def StructRegistry.size (registry : StructRegistry) : Nat :=
  registry.entries.length

def StructRegistry.isEmpty (registry : StructRegistry) : Bool :=
  registry.entries.isEmpty

def StructRegistry.sorted (registry : StructRegistry) : List StructInfo :=
  registry.entries.mergeSort fun left right =>
    left.symbol.name ≤ right.symbol.name

/-- The names of the struct types in ascending order. -/
def StructRegistry.names (registry : StructRegistry) : List String :=
  registry.sorted.map (·.symbol.name)

end MiniLang

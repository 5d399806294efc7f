/-
Laws of the struct registry: what it answers once a struct type was added to it, or one of
its struct types was given other fields.
-/
import MiniLang.Scope.Structs

namespace MiniLang

theorem StructRegistry.contains_eq_isSome (registry : StructRegistry) (name : String) :
    registry.contains name = (registry.get? name).isSome := by
  rw [StructRegistry.get?, List.isSome_find?, StructRegistry.contains]

theorem StructRegistry.contains_append (registry : StructRegistry) (info : StructInfo)
    (name : String) :
    StructRegistry.contains ⟨registry.entries ++ [info]⟩ name =
      (registry.contains name || info.symbol.name == name) := by
  rw [StructRegistry.contains, List.any_append, List.any_cons, List.any_nil,
    Bool.or_false, StructRegistry.contains]

/-- A struct type that was added is found unless there was one of its name before. -/
theorem StructRegistry.get?_append (registry : StructRegistry) (info : StructInfo)
    (name : String) :
    StructRegistry.get? ⟨registry.entries ++ [info]⟩ name =
      (registry.get? name).or (if info.symbol.name = name then some info else none) := by
  rw [StructRegistry.get?, List.find?_append, List.find?_singleton, StructRegistry.get?]
  simp only [beq_iff_eq]

theorem StructRegistry.name_of_get? {registry : StructRegistry} {name : String}
    {info : StructInfo} (h : registry.get? name = some info) : info.symbol.name = name := by
  rw [StructRegistry.get?] at h
  simpa using List.find?_some h

/-- Other fields are found under the name of their struct type, and under no other one. -/
theorem StructRegistry.get?_setFields (registry : StructRegistry) (name other : String)
    (fields : SymbolTable) :
    (registry.setFields name fields).get? other =
      (registry.get? other).map fun info =>
        if other = name then ⟨info.symbol, fields⟩ else info := by
  let change (info : StructInfo) : StructInfo :=
    if info.symbol.name = name then ⟨info.symbol, fields⟩ else info
  have hname : (fun info : StructInfo => info.symbol.name == other) ∘ change =
      fun info => info.symbol.name == other := by
    funext info
    simp only [change, Function.comp]
    split <;> rfl
  have hentries : (registry.setFields name fields).entries =
      registry.entries.map change := rfl
  rw [StructRegistry.get?, hentries, List.find?_map, hname]
  apply Option.map_congr
  intro info hinfo
  rw [← StructRegistry.name_of_get? hinfo]

/-- Other fields do not change what the name of a struct stands for. -/
theorem StructRegistry.lookup_setFields (registry : StructRegistry)
    (name other : String) (fields : SymbolTable) :
    (registry.setFields name fields).lookup other = registry.lookup other := by
  rw [StructRegistry.lookup, StructRegistry.get?_setFields, Option.map_map,
    StructRegistry.lookup]
  apply Option.map_congr
  intro info _
  simp only [Function.comp]
  split <;> rfl

theorem StructRegistry.contains_setFields (registry : StructRegistry)
    (name other : String) (fields : SymbolTable) :
    (registry.setFields name fields).contains other = registry.contains other := by
  rw [StructRegistry.contains_eq_isSome, StructRegistry.get?_setFields, Option.isSome_map,
    StructRegistry.contains_eq_isSome]

end MiniLang

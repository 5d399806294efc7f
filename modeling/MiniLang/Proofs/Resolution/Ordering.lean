/-
The order of names. A list that is sorted by its names ascends if no name is there twice,
and then it does not matter in which order the list was before.
-/
import MiniLang.Scope.Structs
import Mathlib.Data.List.Sort
import Mathlib.Data.String.Basic

namespace MiniLang

variable {α : Type}

/-- What is sorted by names that are not there twice ascends by them. -/
theorem mergeSort_ascends {nameOf : α → String} {items : List α}
    (h : (items.map nameOf).Nodup) :
    (items.mergeSort fun left right => nameOf left ≤ nameOf right).Pairwise
      fun left right => nameOf left < nameOf right := by
  have hsorted : (items.mergeSort fun left right => nameOf left ≤ nameOf right).Pairwise
      fun left right => decide (nameOf left ≤ nameOf right) = true := by
    apply List.pairwise_mergeSort
    · intro left middle right hleft hright
      rw [decide_eq_true_iff] at hleft hright ⊢
      exact hleft.trans hright
    · intro left right
      rw [Bool.or_eq_true, decide_eq_true_iff, decide_eq_true_iff]
      exact le_total _ _
  have hperm := (List.mergeSort_perm items fun left right =>
    nameOf left ≤ nameOf right).map nameOf
  have hdistinct := List.pairwise_map.mp (hperm.nodup_iff.mpr h)
  apply (hsorted.and hdistinct).imp
  rintro left right ⟨hle, hne⟩
  exact lt_of_le_of_ne (of_decide_eq_true hle) hne

theorem sortByName_perm (symbols : List Symbol) : (sortByName symbols).Perm symbols :=
  List.mergeSort_perm _ _

theorem sortByName_ascends {symbols : List Symbol} (h : (symbols.map Symbol.name).Nodup) :
    (sortByName symbols).Pairwise fun symbol other => symbol.name < other.name :=
  mergeSort_ascends h

/-- Symbols that are the same but for their order are the same when they are sorted. -/
theorem sortByName_eq_of_perm {symbols others : List Symbol} (h : symbols.Perm others)
    (hdistinct : (symbols.map Symbol.name).Nodup) :
    sortByName symbols = sortByName others := by
  have hdistinct' := (h.map Symbol.name).nodup_iff.mp hdistinct
  have hperm := ((sortByName_perm symbols).trans h).trans (sortByName_perm others).symm
  apply List.Perm.eq_of_pairwise _ (sortByName_ascends hdistinct)
    (sortByName_ascends hdistinct') hperm
  intro symbol other _ _ hless hmore
  exact absurd hmore (lt_asymm hless)

/-- The names of struct types ascend if no name is there twice. -/
theorem StructRegistry.names_ascend {registry : StructRegistry}
    (h : (registry.entries.map (·.symbol.name)).Nodup) :
    registry.names.Pairwise (· < ·) :=
  List.pairwise_map.mpr (mergeSort_ascends h)

theorem StructRegistry.mem_names {registry : StructRegistry} {name : String} :
    name ∈ registry.names ↔ registry.contains name = true := by
  have hperm := (List.mergeSort_perm registry.entries fun left right =>
    left.symbol.name ≤ right.symbol.name).map fun info : StructInfo => info.symbol.name
  rw [StructRegistry.names, StructRegistry.sorted, hperm.mem_iff, StructRegistry.contains,
    List.any_eq_true]
  simp

end MiniLang

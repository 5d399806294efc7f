/-
Name resolution is lexical scoping: every use is linked to what its name stands for
where it is used, and the uses of names that stand for nothing are reported.
-/
import MiniLang.Proofs.Resolution.Parsed
import Mathlib

namespace MiniLang

/-- The uses of names that stand for nothing, in the order of a walk. -/
def undeclaredUses (occurrences : List Occurrence) : List Ident :=
  inOrder (fun before occurrence =>
    match occurrence.site with
    | .use id => if (visible before occurrence.scope id.name).isSome then [] else [id]
    | _ => []) [] occurrences

/-- The error of a use of a name that stands for nothing. -/
def undeclaredError (id : Ident) : NameError :=
  ⟨.undeclaredIdentifier, id.name, id.span⟩

theorem length_linked (before occurrences : List Occurrence) :
    (linked before occurrences).length = occurrences.length := by
  induction occurrences generalizing before with
  | nil => rfl
  | cons occurrence rest ih => exact congrArg Nat.succ (ih (before ++ [occurrence]))

theorem getElem?_linked (before behind : List Occurrence) (occurrence : Occurrence) :
    (linked [] (before ++ occurrence :: behind))[before.length]? =
      some ⟨occurrence.scope, occurrence.linkedSite before⟩ := by
  have hlength : (linked [] before).length = before.length := length_linked [] before
  rw [linked_append, List.getElem?_append_right (Nat.le_of_eq hlength), hlength,
    Nat.sub_self]
  rfl

theorem fault_of_mem_clashes {taken symbols : List Symbol} {error : NameError}
    (h : error ∈ clashes taken symbols) : error.fault = .duplicateDeclaration := by
  obtain ⟨front, symbol, _, _, herror⟩ := mem_inOrder_iff.mp h
  by_cases htaken : (taken ++ front).any (declares symbol.name) = true
  · rw [if_pos htaken] at herror
    obtain rfl := List.mem_singleton.mp herror
    rfl
  · rw [if_neg htaken] at herror
    exact absurd herror List.not_mem_nil

theorem fault_of_mem_voidErrors {type : TypeNode} {id : Ident} {error : NameError}
    (h : error ∈ voidErrors type id) : error.fault = .voidVariable := by
  rw [voidErrors] at h
  by_cases hvoid : type.type = .void
  · rw [if_pos hvoid] at h
    obtain rfl := List.mem_singleton.mp h
    rfl
  · rw [if_neg hvoid] at h
    exact absurd h List.not_mem_nil

theorem structFault?_ne_undeclared (before : List Occurrence) (name : String) :
    structFault? before name ≠ some .undeclaredIdentifier := by
  rw [structFault?]
  split
  · rintro ⟨⟩
  · split <;> rintro ⟨⟩

/-- Only uses are undeclared. -/
theorem Occurrence.errors_of_declaring {before : List Occurrence}
    {occurrence : Occurrence} (h : ∀ id, occurrence.site ≠ .use id) :
    ∀ error ∈ occurrence.errors before, error.fault ≠ .undeclaredIdentifier := by
  have hclash : ∀ {taken symbols error}, error ∈ clashes taken symbols →
      error.fault ≠ .undeclaredIdentifier := fun herror => by
    rw [fault_of_mem_clashes herror]
    exact nofun
  have hvoid : ∀ {type id error}, error ∈ voidErrors type id →
      error.fault ≠ .undeclaredIdentifier := fun herror => by
    rw [fault_of_mem_voidErrors herror]
    exact nofun
  refine List.forall_mem_append.mpr ⟨?_, fun error => hclash⟩
  intro error herror
  rw [Occurrence.faults] at herror
  split at herror
  · exact hvoid herror
  · exact absurd herror List.not_mem_nil
  · split at herror
    · rename_i fault hfault
      obtain rfl := List.mem_singleton.mp herror
      rintro rfl
      exact structFault?_ne_undeclared _ _ hfault
    · obtain ⟨_, _, _, _, hfield⟩ := mem_inOrder_iff.mp herror
      rcases List.mem_append.mp hfield with hfield | hfield
      · exact hvoid hfield
      · exact hclash hfield
  · exact absurd ‹_› (h _)

/-- The errors of undeclared names are those of the uses that stand for nothing, in the
same order. -/
theorem filter_errorsAfter (occurrences : List Occurrence) :
    (errorsAfter occurrences).filter (·.fault = .undeclaredIdentifier) =
      (undeclaredUses occurrences).map undeclaredError := by
  rw [errorsAfter, filter_inOrder, undeclaredUses, map_inOrder]
  congr 1
  funext before occurrence
  obtain ⟨scope, site⟩ := occurrence
  cases site with
  | use id =>
      simp only [Occurrence.errors, Occurrence.faults, Occurrence.symbols, clashes,
        inOrder_nil, List.append_nil]
      cases visible before scope id.name <;> rfl
  | _ =>
      refine List.filter_eq_nil_iff.mpr fun error herror => ?_
      simpa using Occurrence.errors_of_declaring (by simp) error herror

/-- Resolving names is lexical scoping. A parsed program can be resolved. Where a
program can be resolved, every use is linked to what its name stands for, and the uses
of names that stand for nothing are reported, each of them once. -/
theorem Program.resolve_lexical :
    (∀ source program, parseTokens (scan source).tokens = .ok program → program.Raw) ∧
    ∀ program : Program, program.Raw →
      (∃ names, program.resolve.outcome = .ok names) ∧
      program.resolve.program.occurrences.length = program.occurrences.length ∧
      (∀ before scope id behind,
        program.occurrences = before ++ ⟨scope, .use id⟩ :: behind →
        program.resolve.program.occurrences[before.length]? =
          some ⟨scope, .use ⟨id.name, id.span, visible before scope id.name⟩⟩) ∧
      program.resolve.errors.filter (·.fault = .undeclaredIdentifier) =
        (undeclaredUses program.occurrences).map undeclaredError := by
  refine ⟨fun source program => Program.raw_of_parse, fun program hraw => ?_⟩
  have hnamed : Named program.occurrences := fun occurrence hoccurrence id hid =>
    hraw.named id (List.mem_flatMap.mpr ⟨occurrence, hoccurrence, hid⟩)
  obtain ⟨hprogram, herrors, houtcome⟩ := Program.resolve_walks hraw.plain hnamed
  refine ⟨⟨_, houtcome⟩, ?_, ?_, ?_⟩
  · rw [hprogram, length_linked]
  · intro before scope id behind hsplit
    have hunlinked : id.symbol = none := by
      have hmem : Leaf.name id ∈ namesOf program.occurrences := by
        rw [hsplit]
        exact name_mem_namesOf (List.mem_append_right _ List.mem_cons_self)
          (List.mem_singleton.mpr rfl)
      exact hraw.unlinked id (program.names_sublist.subset hmem)
    rw [hprogram, hsplit, getElem?_linked]
    simp [Occurrence.linkedSite, Ident.linkTo, hunlinked]
  · rw [herrors, filter_errorsAfter]

/-- A parameter hides a variable of its name. -/
theorem Program.resolve_lexical_parameter : ∃ program,
    parseTokens (scan "int x; int f(bool x) { return x; }").tokens = .ok program ∧
    program.Raw ∧
    program.resolve.errors.filter (·.fault = .undeclaredIdentifier) = [] ∧
    program.resolve.program.occurrences[3]? =
      some ⟨[.function 1], .use ⟨"x", Span.ofLength ⟨1, 31⟩ 1,
        some ⟨"x", .param .bool, Span.ofLength ⟨1, 19⟩ 1⟩⟩⟩ := by
  let x (column : Nat) : Ident := ⟨"x", Span.ofLength ⟨1, column⟩ 1, none⟩
  let program : Program := ⟨[.var .int (x 5),
    .func .int ⟨"f", Span.ofLength ⟨1, 12⟩ 1, none⟩ [⟨.bool, x 19⟩]
      (.mk [] [.ret (some (.name (x 31)))])]⟩
  have hparse : parseTokens (scan "int x; int f(bool x) { return x; }").tokens =
      .ok program := by cbv
  have hraw : program.Raw := Program.resolve_lexical.1 _ _ hparse
  obtain ⟨_, _, huses, herrors⟩ := Program.resolve_lexical.2 program hraw
  have hnone : undeclaredUses program.occurrences = [] := by decide
  rw [hnone] at herrors
  have huse := huses (program.occurrences.take 3) [.function 1] (x 31) [] rfl
  exact ⟨program, hparse, hraw, herrors, huse⟩

end MiniLang

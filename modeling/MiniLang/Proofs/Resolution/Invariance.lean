/-
Names are told apart, and nothing else about them matters. A program with other names is
resolved as the program is; only the order of the outermost symbols is a new one.
-/
import MiniLang.Grammar.Program
import MiniLang.Proofs.Resolution.Simulation
import MiniLang.Proofs.Resolution.Traversal
import MiniLang.Token.Scan
import Mathlib

namespace MiniLang

/-- The renaming that exchanges two names, both neither empty nor names of types. -/
def Renaming.swap (one other : String) (hone : one ≠ "" ∧ isReservedTypeName one = false)
    (hother : other ≠ "" ∧ isReservedTypeName other = false) : Renaming where
  name := Equiv.swap one other
  injective := (Equiv.swap one other).injective
  empty := Equiv.swap_apply_of_ne_of_ne hone.1.symm hother.1.symm
  reserved word := by
    rw [Equiv.swap_apply_def]
    split
    · rw [hother.2, ‹word = one›, hone.2]
    · split
      · rw [hone.2, ‹word = other›, hother.2]
      · rfl

/-- What the phases behind are told, with other names: the symbols of the outermost scope
are sorted again. -/
def Namespace.rename (anew : Renaming) (names : Namespace) : Namespace :=
  ⟨names.structs.rename anew, sortByName (names.globals.map (Symbol.rename anew)),
    names.errorCount⟩

variable (anew : Renaming)

theorem Walk.alike_start (relate : SymbolTable → SymbolTable → Prop)
    (h : relate .new .new) : Walk.Alike anew relate [] [] .start .start where
  table := h
  keyed := ⟨SymbolTable.keyed_new, SymbolTable.keyed_new⟩
  structs := rfl
  halted := rfl
  errors := ⟨[], rfl, rfl⟩

/-- The walk over a renamed program ends like the walk over the program. -/
theorem Program.alike_rename (program : Program) :
    Walk.Alike anew (SymbolTable.Renamed anew) [] [] program.lastWalk
        (program.rename anew).lastWalk ∧
      (program.rename anew).resolve.program = program.resolve.program.rename anew := by
  have hused : AllNamed (fun _ => True) (program.decls.flatMap Decl.uses) :=
    fun _ _ => trivial
  have hlist := Decl.follows_list (SymbolTable.matching_renamed anew _)
    (fun decl _ => (simulated_both anew).1 decl) hused
  obtain ⟨halike, hanswer⟩ := hlist (Walk.alike_start anew _ rfl)
  exact ⟨halike, congrArg (fun answer => Program.mk answer.1) hanswer⟩

/-- Renaming invariance. A program with other names is resolved like the program: it answers
the program with its links, the errors and the struct types, all of them with the other
names, and it fails where that fails. The symbols of the outermost scope are the renamed
ones, sorted again. -/
theorem Program.resolve_rename (program : Program) :
    (program.rename anew).resolve.program = program.resolve.program.rename anew ∧
    (program.rename anew).resolve.errors =
      program.resolve.errors.map (NameError.rename anew) ∧
    (program.rename anew).resolve.outcome =
      program.resolve.outcome.map (Namespace.rename anew) := by
  obtain ⟨halike, hprogram⟩ := program.alike_rename anew
  have herrors : (program.rename anew).resolve.errors =
      program.resolve.errors.map (NameError.rename anew) := by
    obtain ⟨errors, hown, hother⟩ := halike.errors
    exact hother.trans (congrArg (List.map (NameError.rename anew)) hown.symm)
  refine ⟨hprogram, herrors, ?_⟩
  have hown := program.outcome_resolve
  have hother := (program.rename anew).outcome_resolve
  rw [halike.halted] at hother
  cases hhalted : program.lastWalk.halted with
  | some reason =>
      rw [hhalted] at hown hother
      obtain ⟨rfl, _⟩ := Program.outcome_eq_error_iff.mp hown
      rw [hown, hother]
      rfl
  | none =>
      rw [hhalted] at hown hother
      have hcount : (program.rename anew).lastWalk.reported = program.lastWalk.reported :=
        calc (program.rename anew).lastWalk.reported
            = (program.rename anew).resolve.errors.length := Program.errorCount_resolve hother
          _ = program.resolve.errors.length := by rw [herrors, List.length_map]
          _ = program.lastWalk.reported := (Program.errorCount_resolve hown).symm
      have htable : (program.rename anew).lastWalk.table =
          program.lastWalk.table.rename anew := halike.table
      rw [hown, hother, Option.map_none, halike.structs, hcount, htable,
        halike.keyed.1.innermostSymbols_rename]
      rfl

/-- Two variables that exchange their names exchange their places among the symbols, and an
error stays where it is. -/
theorem Program.resolve_rename_swap : ∃ (anew : Renaming) (program : Program),
    anew.name "a" = "b" ∧ anew.name "b" = "a" ∧
    parseTokens (scan "int a; bool b; int f() { a = c; }").tokens = .ok program ∧
    program.resolve.outcome.map Namespace.globals = .ok
      [⟨"a", .var .int, Span.ofLength ⟨1, 5⟩ 1⟩, ⟨"b", .var .bool, Span.ofLength ⟨1, 13⟩ 1⟩,
        ⟨"f", .function ⟨[], .int⟩, Span.ofLength ⟨1, 20⟩ 1⟩] ∧
    (program.rename anew).resolve.outcome.map Namespace.globals = .ok
      [⟨"a", .var .bool, Span.ofLength ⟨1, 13⟩ 1⟩, ⟨"b", .var .int, Span.ofLength ⟨1, 5⟩ 1⟩,
        ⟨"f", .function ⟨[], .int⟩, Span.ofLength ⟨1, 20⟩ 1⟩] ∧
    (program.rename anew).resolve.errors =
      [⟨.undeclaredIdentifier, "c", Span.ofLength ⟨1, 30⟩ 1⟩] := by
  let anew := Renaming.swap "a" "b" (by decide) (by decide)
  let name (text : String) (column : Nat) : Ident :=
    ⟨text, Span.ofLength ⟨1, column⟩ 1, none⟩
  let program : Program := ⟨[.var .int (name "a" 5), .var .bool (name "b" 13),
    .func .int (name "f" 20) []
      (.mk [] [.assign (.assign (.name (name "a" 26)) (.name (name "c" 30)))])]⟩
  have hparse : parseTokens (scan "int a; bool b; int f() { a = c; }").tokens =
      .ok program := by cbv
  obtain ⟨_, herrors, houtcome⟩ := program.resolve_rename anew
  have howns : program.resolve.errors =
      [⟨.undeclaredIdentifier, "c", Span.ofLength ⟨1, 30⟩ 1⟩] := by rfl
  have hown : program.resolve.outcome = .ok ⟨.empty,
      [⟨"a", .var .int, Span.ofLength ⟨1, 5⟩ 1⟩, ⟨"b", .var .bool, Span.ofLength ⟨1, 13⟩ 1⟩,
        ⟨"f", .function ⟨[], .int⟩, Span.ofLength ⟨1, 20⟩ 1⟩], 1⟩ := by
    cbv
  refine ⟨anew, program, rfl, rfl, hparse, ?_, ?_, ?_⟩
  · rw [hown]
    rfl
  · rw [houtcome, hown]
    cbv
  · rw [herrors, howns]
    rfl

end MiniLang

/-
Frames and what was offered to them: a frame holds the first symbol of every name.
Declaring a symbol is offering it, and it answers whether the frame has taken it.
-/
import MiniLang.Proofs.Resolution.Lexical
import Mathlib.Data.List.Induction

namespace MiniLang

theorem firsts_append (taken front back : List Symbol) :
    firsts taken (front ++ back) = firsts taken front ++ firsts (taken ++ front) back :=
  inOrder_append _ taken front back

theorem firsts_append_singleton (symbols : List Symbol) (symbol : Symbol) :
    firsts [] (symbols ++ [symbol]) = firsts [] symbols ++ firsts symbols [symbol] :=
  firsts_append [] symbols [symbol]

theorem firsts_of_taken {taken : List Symbol} {symbol : Symbol}
    (h : taken.any (declares symbol.name) = true) : firsts taken [symbol] = [] := by
  rw [firsts, inOrder_singleton, if_pos h]

theorem firsts_of_new {taken : List Symbol} {symbol : Symbol}
    (h : taken.any (declares symbol.name) = false) :
    firsts taken [symbol] = [symbol] := by
  rw [firsts, inOrder_singleton, if_neg (by simp [h])]

theorem clashes_of_taken {taken : List Symbol} {symbol : Symbol}
    (h : taken.any (declares symbol.name) = true) :
    clashes taken [symbol] = [⟨.duplicateDeclaration, symbol.name, symbol.span⟩] := by
  rw [clashes, inOrder_singleton, if_pos h]

theorem clashes_of_new {taken : List Symbol} {symbol : Symbol}
    (h : taken.any (declares symbol.name) = false) : clashes taken [symbol] = [] := by
  rw [clashes, inOrder_singleton, if_neg (by simp [h])]

theorem clashes_append (taken front back : List Symbol) :
    clashes taken (front ++ back) =
      clashes taken front ++ clashes (taken ++ front) back :=
  inOrder_append _ taken front back

/-- Dropping what is not first drops no name. -/
theorem any_firsts (name : String) (symbols : List Symbol) :
    (firsts [] symbols).any (declares name) = symbols.any (declares name) := by
  induction symbols using List.reverseRecOn with
  | nil => rfl
  | append_singleton symbols symbol ih =>
      rw [firsts_append_singleton, List.any_append, ih, List.any_append]
      cases htaken : symbols.any (declares symbol.name) with
      | false => rw [firsts_of_new htaken]
      | true =>
          rw [firsts_of_taken htaken, List.any_nil, Bool.or_false, List.any_cons,
            List.any_nil, Bool.or_false]
          by_cases hname : symbol.name = name
          · rw [← hname, htaken, Bool.true_or]
          · simp [declares, hname]

theorem frameOf_of_taken {symbols : List Symbol} {symbol : Symbol}
    (h : symbols.any (declares symbol.name) = true) :
    frameOf (symbols ++ [symbol]) = frameOf symbols := by
  rw [frameOf, firsts_append_singleton, firsts_of_taken h, List.append_nil, frameOf]

theorem frameOf_of_new {symbols : List Symbol} {symbol : Symbol}
    (h : symbols.any (declares symbol.name) = false) :
    frameOf (symbols ++ [symbol]) = (symbol.name, symbol) :: frameOf symbols := by
  rw [frameOf, firsts_append_singleton, firsts_of_new h, List.map_append,
    List.reverse_append, frameOf]
  rfl

/-- A frame has the first symbol of a name. -/
theorem lookup_frameOf (name : String) (symbols : List Symbol) :
    (frameOf symbols).lookup name = (firsts [] symbols).find? (declares name) := by
  induction symbols using List.reverseRecOn with
  | nil => rfl
  | append_singleton symbols symbol ih =>
      rw [firsts_append_singleton, List.find?_append, ← ih]
      cases htaken : symbols.any (declares symbol.name) with
      | true => rw [frameOf_of_taken htaken, firsts_of_taken htaken, List.find?_nil,
          Option.or_none]
      | false =>
          rw [frameOf_of_new htaken, firsts_of_new htaken, List.lookup_cons]
          by_cases hname : name = symbol.name
          · subst hname
            have hnone : (frameOf symbols).lookup symbol.name = none := by
              rw [ih, List.find?_eq_none]
              rw [← any_firsts, List.any_eq_false] at htaken
              exact htaken
            simp [hnone, declares]
          · have hother : ¬ symbol.name = name := fun h => hname h.symm
            have hbeq : (name == symbol.name) = false := by simp [hname]
            simp [hbeq, hother, declares]

theorem isSome_lookup_frameOf (name : String) (symbols : List Symbol) :
    ((frameOf symbols).lookup name).isSome = symbols.any (declares name) := by
  rw [lookup_frameOf, List.isSome_find?, any_firsts]

theorem Resolver.run_bind {α β : Type} {step : Resolver α} {next : α → Resolver β}
    {walk walk' : Walk} {answer : α} (h : step.run walk = (answer, walk')) :
    (step >>= next).run walk = (next answer).run walk' := by
  rw [StateT.run_bind, h]
  rfl

theorem Resolver.run_unlessHalted {α : Type} (idle : α) (step : Resolver α)
    {walk : Walk} (h : walk.halted = none) :
    (Resolver.unlessHalted idle step).run walk = step.run walk := by
  simp [Resolver.unlessHalted, h]

/-- A walk whose innermost frame was offered some symbols. -/
def Walk.offered (symbols : List Symbol) (outer : List Frame) (structs : StructRegistry)
    (errors : List NameError) : Walk :=
  ⟨⟨frameOf symbols :: outer⟩, structs, errors, errors.length, none⟩

section Offered

variable (taken : List Symbol) (outer : List Frame) (structs : StructRegistry)
  (errors : List NameError)

theorem Resolver.report_offered (fault : NameFault) (name : String) (span : Span) :
    (Resolver.report fault name span).run (.offered taken outer structs errors) =
      ((), .offered taken outer structs (errors ++ [⟨fault, name, span⟩])) := by
  rw [Walk.offered, Walk.offered, List.length_append]
  rfl

/-- Declaring a symbol offers it to the innermost frame. -/
theorem Resolver.declare_offered {symbol : Symbol} (hname : symbol.name ≠ "") :
    (Resolver.declare symbol).run (.offered taken outer structs errors) =
      ((firsts taken [symbol]).head?,
        .offered (taken ++ [symbol]) outer structs
          (errors ++ clashes taken [symbol])) := by
  have hlookup := isSome_lookup_frameOf symbol.name taken
  cases htaken : taken.any (declares symbol.name) with
  | true =>
      rw [htaken, Option.isSome_iff_exists] at hlookup
      obtain ⟨other, hother⟩ := hlookup
      rw [firsts_of_taken htaken, clashes_of_taken htaken]
      simp [Resolver.declare, Walk.offered, SymbolTable.lookupInnermost, hother,
        frameOf_of_taken htaken, Resolver.report]
      rfl
  | false =>
      rw [htaken, Option.isSome_eq_false_iff, Option.isNone_iff_eq_none] at hlookup
      rw [firsts_of_new htaken, clashes_of_new htaken, List.append_nil]
      simp [Resolver.declare, Walk.offered, SymbolTable.lookupInnermost, hlookup,
        frameOf_of_new htaken, SymbolTable.declare, hname]
      rfl

/-- Exposing symbols offers them one by one. -/
theorem Resolver.exposeFields_offered {symbols : List Symbol}
    (hnames : ∀ symbol ∈ symbols, symbol.name ≠ "") :
    (Resolver.exposeFields symbols).run (.offered taken outer structs errors) =
      ((), .offered (taken ++ symbols) outer structs
        (errors ++ clashes taken symbols)) := by
  induction symbols generalizing taken errors with
  | nil =>
      rw [List.append_nil, clashes, inOrder_nil, List.append_nil]
      rfl
  | cons symbol rest ih =>
      obtain ⟨hsymbol, hrest⟩ := List.forall_mem_cons.mp hnames
      have hmore := ih (taken ++ [symbol]) (errors ++ clashes taken [symbol]) hrest
      rw [List.append_assoc, List.append_assoc, ← clashes_append] at hmore
      rw [Resolver.exposeFields, Resolver.run_bind]
      · exact hmore
      · rw [Resolver.run_unlessHalted () _ rfl, Resolver.run_bind
          (Resolver.declare_offered taken outer structs errors hsymbol)]
        rfl

/-- Declaring a name with a type offers its symbol, if the type is not `void`. -/
theorem Resolver.declareVariable_offered (binding : Binding) (type : TypeNode)
    {id : Ident} (hname : id.name ≠ "") :
    (Resolver.declareVariable binding.kind type id).run
        (.offered taken outer structs errors) =
      (let declared := (firsts taken (variableSymbol? binding type id).toList).head?
       ((id.linkTo declared, declared),
        .offered (taken ++ (variableSymbol? binding type id).toList) outer structs
          (errors ++ (voidErrors type id
            ++ clashes taken (variableSymbol? binding type id).toList)))) := by
  rw [Resolver.declareVariable, Resolver.run_unlessHalted _ _ rfl]
  by_cases hvoid : type.type = .void
  · simp only [variableSymbol?, voidErrors, hvoid, if_true, Option.toList_none,
      List.append_nil, firsts, clashes, inOrder_nil]
    exact Resolver.run_bind (Resolver.report_offered taken outer structs errors _ _ _)
  · have hdeclare := Resolver.declare_offered taken outer structs errors
      (show (Symbol.mk id.name (binding.kind type.type) id.span).name ≠ "" from hname)
    simp only [variableSymbol?, voidErrors, hvoid, if_false, Option.toList_some,
      List.nil_append]
    rw [Resolver.run_bind hdeclare]
    rfl

end Offered

end MiniLang

/-
Two functions that stand next to each other and do not use each other's names may change
places. Each one is resolved as before, and what stands behind them does not tell their
order.
-/
import MiniLang.Proofs.Resolution.Behind

namespace MiniLang

/-- What makes up a function: its heading and its body. -/
structure FunctionParts where
  result : TypeNode
  id : Ident
  formals : List Formal
  body : Block

def FunctionParts.decl (function : FunctionParts) : Decl :=
  .func function.result function.id function.formals function.body

def FunctionParts.symbol (function : FunctionParts) : Symbol :=
  headingSymbol function.result function.id function.formals

/-- Whether a function has another name, and does not use the name in its body. -/
structure FunctionParts.Avoids (function : FunctionParts) (avoided : String) : Prop where
  name : function.id.name ≠ avoided
  uses : ∀ id ∈ function.body.uses, id.name ≠ avoided

section Apart

variable {function : FunctionParts} {avoided : String} {before others : List Occurrence}
  {index : Nat}

theorem Decl.answer_rename_same (answer : Decl × Option Symbol) :
    Prod.map (Decl.rename .same) (Option.map (Symbol.rename .same)) answer = answer :=
  Prod.ext (rename_same_both.1 answer.1) (Symbol.map_rename_same answer.2)

/-- A function that avoids a name is resolved alike from tables that agree on all other
names. -/
theorem FunctionParts.Avoids.follows (h : function.Avoids avoided) :
    Resolver.Follows .same (SymbolTable.Agree (· ≠ avoided) (· ≠ avoided))
      function.decl.resolve function.decl.resolve fun answer => answer := by
  -- The outermost scopes do not match: they may differ at the avoided name. The scope of
  -- the function starts empty and does.
  have hdeclare : Resolver.Follows .same (SymbolTable.Agree (· ≠ avoided) (· ≠ avoided))
      (Resolver.declare function.symbol)
      (Resolver.declare (function.symbol.rename .same))
      (Option.map (Symbol.rename .same)) := by
    apply Resolver.follows_declare
    · intro table other hagree
      rw [SymbolTable.map_lookupInnermost_same]
      exact hagree.innermost h.name
    · intro table other hagree hfree
      rw [Symbol.rename_same]
      exact hagree.add h.name hfree
  have hbody := Block.follows_of_matching (SymbolTable.matching_agree (· ≠ avoided))
    function.body h.uses
  have hfollows := Decl.follows_func
    (Resolver.follows_declareFunction function.result function.id function.formals hdeclare)
    SymbolTable.Agree.push (SymbolTable.matching_agree (· ≠ avoided)) hbody
  rw [rename_same_both.1] at hfollows
  exact hfollows.congr Decl.answer_rename_same

/-- From walks that have the same behind them but for an avoided name, a function is
answered in the same way, and with the same errors. -/
theorem FunctionParts.Avoids.resolve (h : function.Avoids avoided)
    (hshaped : function.decl.Shaped) (hsame : SameBehind (· ≠ avoided) before others)
    (hnew : Untouched before [.function index]) (hnew' : Untouched others [.function index]) :
    ∃ answer,
      function.decl.resolve.run (.after before []) =
        (answer, .after (before ++ function.decl.occurrences [] index) []) ∧
      function.decl.resolve.run (.after others []) =
        (answer, .after (others ++ function.decl.occurrences [] index) []) ∧
      errorsFrom others (function.decl.occurrences [] index) =
        errorsFrom before (function.decl.occurrences [] index) := by
  obtain ⟨answer, hrun, _⟩ := hshaped.links hnew
  obtain ⟨answer', hrun', _⟩ := hshaped.links hnew'
  obtain ⟨hafter, hanswer⟩ := h.follows hsame.alike
  obtain ⟨errors, herrors, herrors'⟩ := hafter.errors
  rw [hrun, hrun'] at hanswer
  rw [hrun] at herrors
  rw [hrun', NameError.map_rename_same] at herrors'
  obtain rfl : answer' = answer := hanswer
  refine ⟨answer', hrun, hrun', ?_⟩
  have hown : errorsFrom before (function.decl.occurrences [] index) = errors :=
    List.append_cancel_left ((errorsAfter_append _ _).symm.trans herrors)
  have hother : errorsFrom others (function.decl.occurrences [] index) = errors :=
    List.append_cancel_left ((errorsAfter_append _ _).symm.trans herrors')
  rw [hother, hown]

theorem FunctionParts.bindings_append (function : FunctionParts)
    (before : List Occurrence) (index : Nat) :
    bindings (before ++ function.decl.occurrences [] index) [] =
      bindings before [] ++ [function.symbol] :=
  bindings_append_func function.result function.id function.formals before index
    function.body

/-- Behind a function, all names but its own stand for what they stood for before. -/
theorem FunctionParts.same_behind (hshaped : function.decl.Shaped)
    (before : List Occurrence) (index : Nat) :
    SameBehind (· ≠ function.id.name) before
      (before ++ function.decl.occurrences [] index) where
  bound name hname := by
    have hother : declares name function.symbol = false :=
      beq_eq_false_iff_ne.mpr hname.symm
    rw [function.bindings_append, List.find?_append, List.find?_singleton, hother]
    exact Option.or_none
  structs := registryAfter_append_structless
    ((Block.shaped_of_func hshaped).structless_func _ _ _ index) before

/-- Behind two functions of different names, their order makes no difference. -/
theorem FunctionParts.same_behind_both {function other : FunctionParts}
    (hname : function.id.name ≠ other.id.name) (hfunction : function.decl.Shaped)
    (hother : other.decl.Shaped) (before : List Occurrence) (index index' : Nat) :
    SameBehind (fun _ => True)
      (before ++ function.decl.occurrences [] index ++ other.decl.occurrences [] index')
      (before ++ other.decl.occurrences [] index' ++ function.decl.occurrences [] index)
    where
  bound name _ := by
    simp only [FunctionParts.bindings_append, List.find?_append, List.find?_singleton]
    by_cases hsame : declares name function.symbol = true
    · have hdiffer : ¬ declares name other.symbol = true := by
        intro hother
        exact hname ((beq_iff_eq.mp hsame).trans (beq_iff_eq.mp hother).symm)
      rw [if_neg hdiffer, Option.or_none, Option.or_none]
    · rw [if_neg hsame, Option.or_none, Option.or_none]
  structs := by
    have hkept {function : FunctionParts} (h : function.decl.Shaped)
        (before : List Occurrence) (index : Nat) :
        registryAfter (before ++ function.decl.occurrences [] index) =
          registryAfter before := (FunctionParts.same_behind h before index).structs
    rw [hkept hfunction, hkept hother, hkept hother, hkept hfunction]

/-- The errors of a function are about names in it. -/
theorem FunctionParts.errorsAmong (function : FunctionParts) (before : List Occurrence)
    (index : Nat) : ErrorsAmong (idsOf function.decl.leaves)
      (errorsFrom before (function.decl.occurrences [] index)) :=
  errorsAmong_of_names (namesOf_sublist_both.1 function.decl [] index).subset

end Apart

/-- Functions that do not use each other's names commute. Where they change places, the
phases behind are told the same, every name is linked to what it was linked to, and in the
errors, those of the one function and those of the other one change places. -/
theorem Program.resolve_exchange {front back : List Decl} {function other : FunctionParts}
    (h : (Program.mk (front ++ function.decl :: other.decl :: back)).Shaped)
    (hname : function.id.name ≠ other.id.name)
    (huses : ∀ id ∈ function.body.uses, id.name ≠ other.id.name)
    (huses' : ∀ id ∈ other.body.uses, id.name ≠ function.id.name) :
    ∃ (front' back' : List Decl) (linked linked' : Decl)
      (ahead errors errors' behind : List NameError) (names names' : Namespace),
      front'.length = front.length ∧
      (Program.mk (front ++ function.decl :: other.decl :: back)).resolve.program =
        ⟨front' ++ linked :: linked' :: back'⟩ ∧
      (Program.mk (front ++ other.decl :: function.decl :: back)).resolve.program =
        ⟨front' ++ linked' :: linked :: back'⟩ ∧
      (Program.mk (front ++ function.decl :: other.decl :: back)).resolve.errors =
        ahead ++ errors ++ errors' ++ behind ∧
      (Program.mk (front ++ other.decl :: function.decl :: back)).resolve.errors =
        ahead ++ errors' ++ errors ++ behind ∧
      ErrorsAmong (idsOf function.decl.leaves) errors ∧
      ErrorsAmong (idsOf other.decl.leaves) errors' ∧
      (Program.mk (front ++ function.decl :: other.decl :: back)).resolve.outcome =
        .ok names ∧
      (Program.mk (front ++ other.decl :: function.decl :: back)).resolve.outcome =
        .ok names' ∧
      names.Same names' := by
  obtain ⟨hfront, hrest⟩ := List.forall_mem_append.mp h
  obtain ⟨hfunction, hmore⟩ := List.forall_mem_cons.mp hrest
  obtain ⟨hother, _⟩ := List.forall_mem_cons.mp hmore
  obtain ⟨names, houtcome⟩ := h.outcome
  obtain ⟨first, hfirst, hlength⟩ := Decl.run_front hfront
  -- The functions keep the numbers of their scopes where they change places. A walk asks
  -- only that the scope of a function is a new one.
  let before := Decl.occurrencesOfList [] 0 front
  let own := function.decl.occurrences [] front.length
  let own' := other.decl.occurrences [] (front.length + 1)
  have hnew : Untouched before [.function front.length] :=
    Decl.untouched_list front [] (by omega)
  have hnew' : Untouched before [.function (front.length + 1)] :=
    Decl.untouched_list front [] (by omega)
  have hown : Untouched own [.function (front.length + 1)] :=
    (within_both.1 function.decl [] front.length).untouched (by simp)
  have hown' : Untouched own' [.function front.length] :=
    (within_both.1 other.decl [] (front.length + 1)).untouched (by simp)
  have havoids : function.Avoids other.id.name := ⟨hname, huses⟩
  have havoids' : other.Avoids function.id.name := ⟨hname.symm, huses'⟩
  obtain ⟨answer, hrun, hbehind, herrors⟩ := havoids.resolve hfunction
    (FunctionParts.same_behind hother before _) hnew (hnew.append hown')
  obtain ⟨answer', hrun', hbehind', herrors'⟩ := havoids'.resolve hother
    (FunctionParts.same_behind hfunction before _) hnew' (hnew'.append hown)
  have hboth := Decl.run_append hfirst
    (Decl.run_cons hrun (Decl.run_cons hbehind' (Decl.run_nil _)))
  have hboth' := Decl.run_append hfirst
    (Decl.run_cons hrun' (Decl.run_cons hbehind (Decl.run_nil _)))
  have hsame := FunctionParts.same_behind_both hname hfunction hother before front.length
    (front.length + 1)
  obtain ⟨rest, behind, hprogram, hprogram', htext, htext', hnames⟩ :=
    Program.resolve_behind hboth hboth' hsame back
  have hprogramOf (one two : FunctionParts) :
      front ++ [one.decl, two.decl] ++ back = front ++ one.decl :: two.decl :: back :=
    List.append_assoc _ _ _
  rw [hprogramOf] at hprogram hprogram' htext htext'
  rw [hprogramOf, hprogramOf] at hnames
  obtain ⟨names', houtcome', hsameNames⟩ := hnames names houtcome
  rw [errorsAfter_append, errorsAfter_append, herrors'] at htext
  rw [errorsAfter_append, errorsAfter_append, herrors] at htext'
  refine ⟨first.1, rest, answer.1, answer'.1, errorsAfter before, errorsFrom before own,
    errorsFrom before own', behind, names, names', hlength, ?_, ?_, htext, htext',
    function.errorsAmong before _, other.errorsAmong before _, houtcome, houtcome',
    hsameNames⟩
  · rw [hprogram, List.append_assoc]
    rfl
  · rw [hprogram', List.append_assoc]
    rfl

/-- Where one function declares a variable of the other one's name without using it, the
two may still change places. -/
theorem Program.resolve_exchange_local : ∃ (front back : List Decl)
    (function other : FunctionParts) (names names' : Namespace),
    parseTokens (scan
      "int y; int f() { bool g; y = u; } int g() { y = v; } int h() { f = g; }").tokens =
        .ok ⟨front ++ function.decl :: other.decl :: back⟩ ∧
    (Program.mk (front ++ function.decl :: other.decl :: back)).resolve.errors =
      [⟨.undeclaredIdentifier, "u", Span.ofLength ⟨1, 30⟩ 1⟩,
        ⟨.undeclaredIdentifier, "v", Span.ofLength ⟨1, 49⟩ 1⟩] ∧
    (Program.mk (front ++ other.decl :: function.decl :: back)).resolve.errors =
      [⟨.undeclaredIdentifier, "v", Span.ofLength ⟨1, 49⟩ 1⟩,
        ⟨.undeclaredIdentifier, "u", Span.ofLength ⟨1, 30⟩ 1⟩] ∧
    (Program.mk (front ++ function.decl :: other.decl :: back)).resolve.outcome =
      .ok names ∧
    (Program.mk (front ++ other.decl :: function.decl :: back)).resolve.outcome =
      .ok names' ∧
    names.Same names' := by
  let name (text : String) (column : Nat) : Ident :=
    ⟨text, Span.ofLength ⟨1, column⟩ 1, none⟩
  let assign (text : String) (column : Nat) (value : String) (behind : Nat) : Stmt :=
    .assign (.assign (.name (name text column)) (.name (name value behind)))
  let front : List Decl := [.var .int (name "y" 5)]
  let function : FunctionParts := ⟨.int, name "f" 12, [],
    .mk [.var .bool (name "g" 23)] [assign "y" 26 "u" 30]⟩
  let other : FunctionParts := ⟨.int, name "g" 39, [], .mk [] [assign "y" 45 "v" 49]⟩
  let back : List Decl :=
    [.func .int (name "h" 58) [] (.mk [] [assign "f" 64 "g" 68])]
  have hparse : parseTokens (scan
      "int y; int f() { bool g; y = u; } int g() { y = v; } int h() { f = g; }").tokens =
        .ok ⟨front ++ function.decl :: other.decl :: back⟩ := by cbv
  obtain ⟨_, _, _, _, _, _, _, _, names, names', _, _, _, _, _, _, _, houtcome, houtcome',
    hsame⟩ := Program.resolve_exchange (Program.shaped_of_parse hparse) (by decide)
      (by decide) (by decide)
  refine ⟨front, back, function, other, names, names', hparse, ?_, ?_, houtcome, houtcome',
    hsame⟩
  · cbv
  · cbv

end MiniLang

/-
What stands behind a part of a program. Of the part, it sees what the outermost scope binds
and the struct types; from walks that have the same of both, it is resolved in the same way.
-/
import MiniLang.Proofs.Resolution.Namespace
import MiniLang.Proofs.Resolution.Shape
import MiniLang.Proofs.Resolution.Simulation
import MiniLang.Proofs.Resolution.Traversal

namespace MiniLang

section Blame

/-- Whether all errors are about names in a list. -/
def ErrorsAmong (ids : List Ident) (errors : List NameError) : Prop :=
  ∀ error ∈ errors, ∃ id ∈ ids, error.name = id.name ∧ error.span = id.span

theorem ErrorsAmong.append {ids : List Ident} {front back : List NameError}
    (hfront : ErrorsAmong ids front) (hback : ErrorsAmong ids back) :
    ErrorsAmong ids (front ++ back) := List.forall_mem_append.mpr ⟨hfront, hback⟩

theorem at_of_mem_voidErrors {type : TypeNode} {id : Ident} {error : NameError}
    (h : error ∈ voidErrors type id) : error.name = id.name ∧ error.span = id.span := by
  rw [voidErrors] at h
  by_cases hvoid : type.type = .void
  · rw [if_pos hvoid] at h
    obtain rfl := List.mem_singleton.mp h
    exact ⟨rfl, rfl⟩
  · rw [if_neg hvoid] at h
    exact absurd h List.not_mem_nil

theorem at_of_mem_variableSymbol? {binding : Binding} {type : TypeNode} {id : Ident}
    {symbol : Symbol} (h : variableSymbol? binding type id = some symbol) :
    symbol.name = id.name ∧ symbol.span = id.span := by
  rw [variableSymbol?] at h
  by_cases hvoid : type.type = .void
  · rw [if_pos hvoid] at h
    cases h
  · rw [if_neg hvoid] at h
    obtain rfl := Option.some.inj h
    exact ⟨rfl, rfl⟩

theorem exists_of_mem_clashes {taken symbols : List Symbol} {error : NameError}
    (h : error ∈ clashes taken symbols) :
    ∃ symbol ∈ symbols, error.name = symbol.name ∧ error.span = symbol.span := by
  obtain ⟨front, symbol, back, rfl, herror⟩ := mem_inOrder_iff.mp h
  by_cases htaken : (taken ++ front).any (declares symbol.name) = true
  · rw [if_pos htaken] at herror
    obtain rfl := List.mem_singleton.mp herror
    exact ⟨symbol, List.mem_append_right _ List.mem_cons_self, rfl, rfl⟩
  · rw [if_neg htaken] at herror
    exact absurd herror List.not_mem_nil

/-- The symbols that an occurrence offers are those of names that it declares. -/
theorem Occurrence.exists_of_mem_symbols {before : List Occurrence}
    {occurrence : Occurrence} {symbol : Symbol} (h : symbol ∈ occurrence.symbols before) :
    ∃ id ∈ occurrence.site.declaring, symbol.name = id.name ∧ symbol.span = id.span := by
  obtain ⟨scope, site⟩ := occurrence
  cases site with
  | named binding type id =>
      exact ⟨id, List.mem_cons_self, at_of_mem_variableSymbol? (Option.mem_toList.mp h)⟩
  | function signature id =>
      obtain rfl := List.mem_singleton.mp h
      exact ⟨id, List.mem_cons_self, rfl, rfl⟩
  | struct id fields =>
      dsimp only [Occurrence.symbols] at h
      by_cases hfault : (structFault? before id.name).isSome = true
      · rw [if_pos hfault] at h
        exact absurd h List.not_mem_nil
      · rw [if_neg hfault] at h
        obtain ⟨field, hfield, hsymbol⟩ := List.mem_filterMap.mp (mem_of_mem_firsts h)
        exact ⟨field.id, List.mem_cons_of_mem _ (List.mem_map_of_mem hfield),
          at_of_mem_variableSymbol? hsymbol⟩
  | use id => exact absurd h List.not_mem_nil

theorem errorsAmong_fields (fields : List Formal) :
    ErrorsAmong (fields.map Formal.id) (inOrder fieldErrors [] fields) := by
  intro error herror
  obtain ⟨front, field, back, rfl, hmem⟩ := mem_inOrder_iff.mp herror
  refine ⟨field.id, by simp, ?_⟩
  rcases List.mem_append.mp hmem with hvoid | hclash
  · exact at_of_mem_voidErrors hvoid
  · obtain ⟨symbol, hsymbol, hname, hspan⟩ := exists_of_mem_clashes hclash
    have hat := at_of_mem_variableSymbol? (Option.mem_toList.mp hsymbol)
    exact ⟨hname.trans hat.1, hspan.trans hat.2⟩

/-- The errors of an occurrence are about the names at it. -/
theorem Occurrence.errorsAmong (before : List Occurrence) (occurrence : Occurrence) :
    ErrorsAmong occurrence.site.ids (occurrence.errors before) := by
  apply ErrorsAmong.append
  · obtain ⟨scope, site⟩ := occurrence
    intro error herror
    cases site with
    | named binding type id => exact ⟨id, List.mem_cons_self, at_of_mem_voidErrors herror⟩
    | function signature id => exact absurd herror List.not_mem_nil
    | struct id fields =>
        rw [Occurrence.faults] at herror
        cases hfault : structFault? before id.name with
        | some fault =>
            simp only [hfault] at herror
            obtain rfl := List.mem_singleton.mp herror
            exact ⟨id, List.mem_cons_self, rfl, rfl⟩
        | none =>
            simp only [hfault] at herror
            obtain ⟨field, hfield, hat⟩ := errorsAmong_fields fields error herror
            exact ⟨field, List.mem_cons_of_mem _ hfield, hat⟩
    | use id =>
        rw [Occurrence.faults] at herror
        cases hvisible : visible before scope id.name with
        | some symbol =>
            simp only [hvisible] at herror
            exact absurd herror List.not_mem_nil
        | none =>
            simp only [hvisible] at herror
            obtain rfl := List.mem_singleton.mp herror
            exact ⟨id, List.mem_cons_self, rfl, rfl⟩
  · intro error herror
    obtain ⟨symbol, hsymbol, hname, hspan⟩ := exists_of_mem_clashes herror
    obtain ⟨id, hid, hat⟩ := Occurrence.exists_of_mem_symbols hsymbol
    exact ⟨id, occurrence.site.declaring_subset_ids hid, hname.trans hat.1,
      hspan.trans hat.2⟩

/-- The errors of occurrences behind some others. -/
def errorsFrom (before occurrences : List Occurrence) : List NameError :=
  inOrder (fun earlier occurrence => occurrence.errors earlier) before occurrences

theorem errorsAfter_append (before occurrences : List Occurrence) :
    errorsAfter (before ++ occurrences) =
      errorsAfter before ++ errorsFrom before occurrences :=
  inOrder_append _ [] before occurrences

/-- The errors of occurrences are about the names of a tree if the occurrences are. -/
theorem errorsAmong_of_names {before occurrences : List Occurrence} {leaves : List Leaf}
    (h : namesOf occurrences ⊆ leaves) :
    ErrorsAmong (idsOf leaves) (errorsFrom before occurrences) := by
  intro error herror
  obtain ⟨front, occurrence, back, rfl, hmem⟩ := mem_inOrder_iff.mp herror
  obtain ⟨id, hid, hat⟩ := occurrence.errorsAmong _ error hmem
  have hname : Leaf.name id ∈ namesOf (front ++ occurrence :: back) :=
    name_mem_namesOf (List.mem_append_right front List.mem_cons_self) hid
  exact ⟨id, mem_idsOf.mpr (h hname), hat⟩

end Blame

section After

theorem bindings_append_elsewhere {occurrences : List Occurrence} {scope : ScopePath}
    (before : List Occurrence)
    (h : ∀ occurrence ∈ occurrences, occurrence.scope ≠ scope) :
    bindings (before ++ occurrences) scope = bindings before scope := by
  induction occurrences using List.reverseRecOn with
  | nil => rw [List.append_nil]
  | append_singleton front occurrence ih =>
      obtain ⟨hfront, hlast⟩ := List.forall_mem_append.mp h
      rw [← List.append_assoc, bindings_append_singleton,
        if_neg (hlast occurrence List.mem_cons_self), List.append_nil, ih hfront]

/-- Occurrences that register no struct leave the struct types as they are. -/
theorem registryAfter_append_structless {occurrences : List Occurrence}
    (h : Structless occurrences) (before : List Occurrence) :
    registryAfter (before ++ occurrences) = registryAfter before := by
  have hnone : inOrder (fun earlier occurrence => occurrence.structs earlier) before
      occurrences = [] := by
    apply List.eq_nil_iff_forall_not_mem.mpr
    intro info hinfo
    obtain ⟨front, occurrence, back, rfl, hmem⟩ := mem_inOrder_iff.mp hinfo
    rw [h occurrence (List.mem_append_right _ List.mem_cons_self)] at hmem
    exact absurd hmem List.not_mem_nil
  have hentries := entries_registryAfter_append before occurrences
  rw [hnone, List.append_nil] at hentries
  exact congrArg StructRegistry.mk hentries

theorem keyed_frameOf (symbols : List Symbol) : Frame.Keyed (frameOf symbols) where
  keys := by
    intro entry hentry
    obtain ⟨symbol, _, rfl⟩ := List.mem_map.mp (List.mem_reverse.mp hentry)
    rfl
  distinct := by
    rw [map_fst_frameOf, List.nodup_reverse]
    exact firsts_distinct symbols

theorem Walk.keyed_after (occurrences : List Occurrence) (scope : ScopePath) :
    (Walk.after occurrences scope).table.Keyed := by
  have houter : ∀ frame ∈ outerAfter occurrences scope, Frame.Keyed frame :=
    List.forall_mem_map.mpr fun _ _ => keyed_frameOf _
  exact List.forall_mem_cons.mpr ⟨keyed_frameOf _, houter⟩

/-- In the outermost scope, a name stands for the first symbol of it that was offered. -/
theorem Walk.lookupInnermost_after (occurrences : List Occurrence) (name : String) :
    (Walk.after occurrences []).table.lookupInnermost name =
      .ok ((bindings occurrences []).find? (declares name)) := by
  rw [← find?_firsts, ← lookup_frameOf]
  rfl

theorem Walk.lookup_outermost (occurrences : List Occurrence) (name : String) :
    (Walk.after occurrences []).table.lookup name =
      (bindings occurrences []).find? (declares name) := by
  rw [Walk.lookup_after, visible, enclosing, List.findSome?_singleton, accepted,
    find?_firsts]

/-- Whether two lists of occurrences bind the same symbols in the outermost scope to some
names, and register the same structs. -/
structure SameBehind (names : String → Prop) (occurrences others : List Occurrence) :
    Prop where
  bound : ∀ name, names name → (bindings others []).find? (declares name) =
    (bindings occurrences []).find? (declares name)
  structs : registryAfter others = registryAfter occurrences

variable {names : String → Prop} {occurrences others : List Occurrence}

/-- The walks behind such occurrences are alike, whatever was reported so far. -/
theorem SameBehind.alike (h : SameBehind names occurrences others) :
    Walk.Alike .same (SymbolTable.Agree names names) (errorsAfter occurrences)
      (errorsAfter others) (.after occurrences []) (.after others []) where
  table := {
    innermost := fun {name} hname => by
      rw [Walk.lookupInnermost_after, Walk.lookupInnermost_after, h.bound name hname]
    lookup := fun {name} hname => by
      rw [Walk.lookup_outermost, Walk.lookup_outermost, h.bound name hname] }
  keyed := ⟨Walk.keyed_after _ _, Walk.keyed_after _ _⟩
  structs := h.structs.trans (StructRegistry.rename_same _).symm
  halted := rfl
  errors := ⟨[], (List.append_nil _).symm, (List.append_nil _).symm⟩

end After

section Functions

/-- The symbol that a heading gives to a function. -/
def headingSymbol (result : TypeNode) (id : Ident) (formals : List Formal) : Symbol :=
  ⟨id.name, .function (headingSignature result formals), id.span⟩

variable (result : TypeNode) (id : Ident) (formals : List Formal) {body : Block}
  (before : List Occurrence) (index : Nat)

/-- The occurrences of a heading and of the parameters behind it. -/
def headingOccurrences : List Occurrence :=
  ⟨[], .function (headingSignature result formals) id⟩
    :: occurrencesOfFormals [.function index] formals

theorem Block.scope_ne_nil (body : Block) : ∀ occurrence ∈ body.occurrences [.function index],
    occurrence.scope ≠ [] := by
  obtain ⟨decls, stmts⟩ := body
  have hwithin : Within [.function index] (fun _ => True)
      ((Block.mk decls stmts).occurrences [.function index]) :=
    Block.within (fun decl _ => within_both.1 decl) fun stmt _ => within_both.2 stmt
  intro occurrence hoccurrence hscope
  rcases hwithin occurrence hoccurrence with hsame | ⟨step, _, hsuffix⟩
  · rw [hscope] at hsame
    cases hsame
  · rw [hscope] at hsuffix
    exact absurd hsuffix.length_le (by simp)

/-- A function binds its own symbol in the outermost scope, and nothing else. -/
theorem bindings_append_func (body : Block) :
    bindings (before ++ (Decl.func result id formals body).occurrences [] index) [] =
      bindings before [] ++ [headingSymbol result id formals] := by
  let heading : Occurrence := ⟨[], .function (headingSignature result formals) id⟩
  have hinside : ∀ occurrence ∈ occurrencesOfFormals [.function index] formals ++
      body.occurrences [.function index], occurrence.scope ≠ [] := by
    have hformals : ∀ occurrence ∈ occurrencesOfFormals [.function index] formals,
        occurrence.scope ≠ [] := List.forall_mem_map.mpr fun _ _ => List.cons_ne_nil _ _
    exact List.forall_mem_append.mpr ⟨hformals, body.scope_ne_nil index⟩
  have hoccurrences : before ++ (Decl.func result id formals body).occurrences [] index =
      (before ++ [heading]) ++ (occurrencesOfFormals [.function index] formals ++
        body.occurrences [.function index]) := by
    rw [List.append_assoc]
    rfl
  rw [hoccurrences, bindings_append_elsewhere _ hinside, bindings_append_singleton,
    if_pos rfl]
  rfl

theorem Block.Shaped.structless_func (h : body.Shaped) :
    Structless ((Decl.func result id formals body).occurrences [] index) := by
  have hheading : Structless (headingOccurrences result id formals index) :=
    List.forall_mem_cons.mpr ⟨fun _ => rfl, List.forall_mem_map.mpr fun _ _ _ => rfl⟩
  exact hheading.append (h.structless _)

variable {result id formals}

theorem Block.shaped_of_func (h : (Decl.func result id formals body).Shaped) :
    body.Shaped where
  flat := h.flat
  named ident hident := by
    apply h.named
    rw [Decl.leaves, idsOf_append]
    exact List.mem_append_right _ hident

/-- A function keeps its shape with another body of the shape. -/
theorem Decl.Shaped.withBody (h : (Decl.func result id formals body).Shaped) {body' : Block}
    (hbody' : body'.Shaped) : (Decl.func result id formals body').Shaped where
  flat := hbody'.flat
  named ident hident := by
    rw [Decl.leaves, idsOf_append] at hident
    rcases List.mem_append.mp hident with hheading | hbody
    · apply h.named
      rw [Decl.leaves, idsOf_append]
      exact List.mem_append_left _ hheading
    · exact hbody'.named ident hbody

end Functions

section Tails

/-- Declarations do not touch the scopes of functions behind them. -/
theorem Decl.untouched_list (decls : List Decl) (scope : ScopePath) {index other : Nat}
    (hother : index + decls.length ≤ other) :
    Untouched (Decl.occurrencesOfList scope index decls) (.function other :: scope) := by
  induction decls generalizing index with
  | nil => exact List.forall_mem_nil _
  | cons decl rest ih =>
      rw [List.length_cons] at hother
      apply Untouched.append
      · apply (within_both.1 decl scope index).untouched
        rintro ⟨⟩
        omega
      · exact ih (by omega)

theorem Decl.map_rename_same (decls : List Decl) :
    decls.map (Decl.rename .same) = decls :=
  MiniLang.map_rename_same fun decl _ => rename_same_both.1 decl

/-- Declarations are resolved alike from tables that agree on all names. -/
theorem Decl.follows_same (decls : List Decl) :
    Resolver.Follows .same (SymbolTable.Agree (fun _ => True) fun _ => True)
      (Decl.resolveList decls) (Decl.resolveList decls) fun answer => answer := by
  have hused : AllNamed (fun _ => True) (decls.flatMap Decl.uses) := fun _ _ => trivial
  have hlist := Decl.follows_list (SymbolTable.matching_agree _)
    (fun decl _ => (simulated_both .same).1 decl) hused
  rw [Decl.map_rename_same] at hlist
  apply hlist.congr
  intro answer
  apply Prod.ext
  · exact Decl.map_rename_same _
  · exact MiniLang.map_rename_same fun (symbol : Symbol) _ => symbol.rename_same

theorem Decl.run_nil (walk : Walk) : (Decl.resolveList []).run walk = (([], []), walk) := rfl

theorem Decl.run_cons {decl : Decl} {rest : List Decl} {walk middle last : Walk}
    {first : Decl × Option Symbol} {others : List Decl × List Symbol}
    (hfirst : decl.resolve.run walk = (first, middle))
    (hlast : (Decl.resolveList rest).run middle = (others, last)) :
    (Decl.resolveList (decl :: rest)).run walk =
      ((first.1 :: others.1, first.2.toList ++ others.2), last) := by
  rw [Decl.resolveList, Resolver.run_bind hfirst, Resolver.run_bind hlast]
  rfl

/-- Declarations behind others are resolved behind them. -/
theorem Decl.run_append {front back : List Decl} {walk middle last : Walk}
    {first others : List Decl × List Symbol}
    (hfirst : (Decl.resolveList front).run walk = (first, middle))
    (hlast : (Decl.resolveList back).run middle = (others, last)) :
    (Decl.resolveList (front ++ back)).run walk =
      ((first.1 ++ others.1, first.2 ++ others.2), last) := by
  induction front generalizing walk first with
  | nil =>
      obtain ⟨rfl, rfl⟩ := Prod.mk.inj hfirst
      exact hlast
  | cons decl rest ih =>
      have hdecl := (Prod.eta (decl.resolve.run walk)).symm
      have hrest := (Prod.eta ((Decl.resolveList rest).run (decl.resolve.run walk).2)).symm
      rw [Decl.run_cons hdecl hrest] at hfirst
      obtain ⟨rfl, rfl⟩ := Prod.mk.inj hfirst
      rw [List.cons_append, Decl.run_cons hdecl (ih hrest), List.append_assoc]
      rfl

/-- Declarations are answered one by one. -/
theorem Decl.length_resolveList (decls : List Decl) (walk : Walk) :
    ((Decl.resolveList decls).run walk).1.1.length = decls.length := by
  induction decls generalizing walk with
  | nil => rfl
  | cons decl rest ih =>
      rw [Decl.run_cons (Prod.eta _).symm (Prod.eta _).symm]
      exact congrArg Nat.succ (ih _)

/-- Declarations in front of others are walked over. -/
theorem Decl.run_front {front : List Decl} (h : ∀ decl ∈ front, decl.Shaped) :
    ∃ answer, (Decl.resolveList front).run .start =
        (answer, .after (Decl.occurrencesOfList [] 0 front) []) ∧
      answer.1.length = front.length := by
  have hnew : ∀ other, 0 ≤ other → Untouched [] [.function other] :=
    fun _ _ => List.forall_mem_nil _
  obtain ⟨answer, hrun, _⟩ := Decl.links_shaped h hnew
  rw [Walk.after_nil, List.nil_append] at hrun
  have hlength := Decl.length_resolveList front .start
  rw [hrun] at hlength
  exact ⟨answer, hrun, hlength⟩

/-- Whether the phases behind are told the same symbols and struct types. -/
structure Namespace.Same (names others : Namespace) : Prop where
  structs : others.structs = names.structs
  globals : others.globals = names.globals

/-- What stands behind declarations that bind and register the same is resolved in the same
way, and the same is told about it. -/
theorem Program.resolve_behind {front front' decls decls' : List Decl}
    {symbols symbols' : List Symbol} {occurrences others : List Occurrence}
    (hfront : (Decl.resolveList front).run .start =
      ((decls, symbols), .after occurrences []))
    (hfront' : (Decl.resolveList front').run .start =
      ((decls', symbols'), .after others []))
    (hsame : SameBehind (fun _ => True) occurrences others) (back : List Decl) :
    ∃ rest errors,
      (Program.mk (front ++ back)).resolve.program = ⟨decls ++ rest⟩ ∧
      (Program.mk (front' ++ back)).resolve.program = ⟨decls' ++ rest⟩ ∧
      (Program.mk (front ++ back)).resolve.errors = errorsAfter occurrences ++ errors ∧
      (Program.mk (front' ++ back)).resolve.errors = errorsAfter others ++ errors ∧
      ∀ names, (Program.mk (front ++ back)).resolve.outcome = .ok names →
        ∃ names', (Program.mk (front' ++ back)).resolve.outcome = .ok names' ∧
          names.Same names' := by
  obtain ⟨halike, hanswer⟩ := Decl.follows_same back hsame.alike
  let last := (Decl.resolveList back).run (.after occurrences [])
  let last' := (Decl.resolveList back).run (.after others [])
  have hrun : (Decl.resolveList (front ++ back)).run .start = _ :=
    Decl.run_append hfront (Prod.eta last).symm
  have hrun' : (Decl.resolveList (front' ++ back)).run .start = _ :=
    Decl.run_append hfront' (Prod.eta last').symm
  have hwalk : (Program.mk (front ++ back)).lastWalk = last.2 :=
    congrArg (fun run => run.2) hrun
  have hwalk' : (Program.mk (front' ++ back)).lastWalk = last'.2 :=
    congrArg (fun run => run.2) hrun'
  obtain ⟨errors, herrors, herrors'⟩ := halike.errors
  rw [NameError.map_rename_same] at herrors'
  refine ⟨last.1.1, errors, ?_, ?_, ?_, ?_, ?_⟩
  · exact congrArg (fun answer => Program.mk answer.1.1) hrun
  · have hrest : last'.1 = last.1 := hanswer
    rw [← hrest]
    exact congrArg (fun answer => Program.mk answer.1.1) hrun'
  · rw [Program.errors_resolve, hwalk]
    exact herrors
  · rw [Program.errors_resolve, hwalk']
    exact herrors'
  · intro names houtcome
    have hhalted : last'.2.halted = last.2.halted.map (TableError.rename .same) :=
      halike.halted
    rw [Program.outcome_resolve, hwalk] at houtcome
    rw [Program.outcome_resolve, hwalk', hhalted]
    cases hgoing : last.2.halted with
    | some reason =>
        rw [hgoing] at houtcome
        cases houtcome
    | none =>
        rw [hgoing] at houtcome
        obtain rfl := Except.ok.inj houtcome
        refine ⟨_, rfl, ?_, ?_⟩
        · exact halike.structs.trans (StructRegistry.rename_same _)
        · exact halike.table.innermostSymbols halike.keyed.1 halike.keyed.2

end Tails

end MiniLang

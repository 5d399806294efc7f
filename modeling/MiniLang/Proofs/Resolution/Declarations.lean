/-
Walks over declarations. What a declaration declares, links, registers and reports is
what its occurrence says.
-/
import MiniLang.Proofs.Resolution.After

namespace MiniLang

variable {α : Type}

theorem fieldSymbols_append (front back : List Formal) :
    fieldSymbols (front ++ back) = fieldSymbols front ++ fieldSymbols back :=
  List.filterMap_append

theorem fieldSymbols_singleton (field : Formal) :
    fieldSymbols [field] = field.fieldSymbol?.toList := by
  rw [fieldSymbols, List.filterMap_cons]
  cases field.fieldSymbol? <;> rfl

theorem head?_firsts_toList (taken : List Symbol) (symbol : Option Symbol) :
    (firsts taken symbol.toList).head?.toList = firsts taken symbol.toList := by
  cases symbol with
  | none => rfl
  | some symbol =>
      rw [Option.toList_some]
      cases htaken : taken.any (declares symbol.name) with
      | false => rw [firsts_of_new htaken]; rfl
      | true => rw [firsts_of_taken htaken]; rfl

theorem mem_of_mem_firsts {taken symbols : List Symbol} {symbol : Symbol}
    (h : symbol ∈ firsts taken symbols) : symbol ∈ symbols := by
  induction symbols generalizing taken with
  | nil => exact h
  | cons first rest ih =>
      rw [firsts, inOrder, ← firsts] at h
      rcases List.mem_append.mp h with hfirst | hrest
      · by_cases htaken : taken.any (declares first.name) = true
        · rw [if_pos htaken] at hfirst
          exact absurd hfirst List.not_mem_nil
        · rw [if_neg htaken] at hfirst
          exact List.mem_cons.mpr (.inl (List.mem_singleton.mp hfirst))
      · exact List.mem_cons_of_mem _ (ih hrest)

theorem name_of_mem_fieldSymbols {fields : List Formal} {symbol : Symbol}
    (h : symbol ∈ fieldSymbols fields) :
    ∃ field ∈ fields, symbol.name = field.id.name := by
  obtain ⟨field, hfield, hsymbol⟩ := List.mem_filterMap.mp h
  refine ⟨field, hfield, ?_⟩
  rw [Formal.fieldSymbol?, variableSymbol?] at hsymbol
  by_cases hvoid : field.type.type = .void
  · rw [if_pos hvoid] at hsymbol
    cases hsymbol
  · rw [if_neg hvoid] at hsymbol
    obtain rfl := Option.some.inj hsymbol
    rfl

section Variables

variable {scope : ScopePath} {before : List Occurrence}

/-- Declaring a name with a type is walking over its occurrence. -/
theorem Resolver.declareVariable_links (binding : Binding) (type : TypeNode)
    {id : Ident} (hname : id.name ≠ "") :
    Links (Resolver.declareVariable binding.kind type id)
      (fun answer => [⟨scope, .named binding type answer.1⟩]) scope before
      [⟨scope, .named binding type id⟩] := by
  have hafter : Walk.after (before ++ [⟨scope, .named binding type id⟩]) scope = _ :=
    Walk.after_append_singleton before ⟨scope, .named binding type id⟩
  simp only [Occurrence.symbols, Occurrence.structs, Occurrence.errors,
    Occurrence.faults, List.append_nil] at hafter
  have hrun := Resolver.declareVariable_offered (bindings before scope)
    (outerAfter before scope) (registryAfter before) (errorsAfter before) binding type
    hname
  exact ⟨_, hrun.trans (congrArg (Prod.mk _) hafter.symm), rfl⟩

/-- Declaring parameters is walking over their occurrences, and leaves their types as
they are. -/
theorem Resolver.declareFormals_resolves {formals : List Formal}
    (hnames : ∀ formal ∈ formals, formal.id.name ≠ "") (before : List Occurrence) :
    Resolves (Resolver.declareFormals formals) (fun answer =>
      occurrencesOfFormals scope answer =
        linked before (occurrencesOfFormals scope formals)
        ∧ answer.map Formal.type = formals.map Formal.type) scope before
      (occurrencesOfFormals scope formals) := by
  induction formals generalizing before with
  | nil => exact .pure ⟨rfl, rfl⟩
  | cons formal rest ih =>
      obtain ⟨hname, hrest⟩ := List.forall_mem_cons.mp hnames
      rw [Resolver.declareFormals]
      refine (Resolver.declareVariable_links .parameter formal.type hname).bind
        fun declared hdeclared => (ih hrest _).last fun answer hanswer => ⟨?_, ?_⟩
      · let own : Occurrence := ⟨scope, .named .parameter formal.type formal.id⟩
        calc occurrencesOfFormals scope (⟨formal.type, declared.1⟩ :: answer)
            = [⟨scope, .named .parameter formal.type declared.1⟩]
                ++ occurrencesOfFormals scope answer := rfl
          _ = linked before [own]
                ++ linked (before ++ [own]) (occurrencesOfFormals scope rest) := by
              rw [hanswer.1]
              exact congrArg (· ++ _) hdeclared
          _ = linked before (occurrencesOfFormals scope (formal :: rest)) :=
              (linked_append before [own] _).symm
      · rw [List.map_cons, hanswer.2, List.map_cons]

/-- Declaring a function is walking over its occurrence. -/
theorem Resolver.declareFunction_links (result : TypeNode) {id : Ident}
    (formals : List Formal) (hname : id.name ≠ "") :
    Links (Resolver.declareFunction result id formals)
      (fun answer => [⟨scope, .function (headingSignature result formals) answer⟩]) scope
      before [⟨scope, .function (headingSignature result formals) id⟩] := by
  have hafter : Walk.after (before ++
      [⟨scope, .function (headingSignature result formals) id⟩]) scope = _ :=
    Walk.after_append_singleton before ⟨scope, .function _ id⟩
  simp only [Occurrence.symbols, Occurrence.structs, Occurrence.errors,
    Occurrence.faults, List.append_nil, List.nil_append] at hafter
  have hdeclare := Resolver.declare_offered (bindings before scope)
    (outerAfter before scope) (registryAfter before) (errorsAfter before)
    (show (Symbol.mk id.name (.function (headingSignature result formals)) id.span).name
      ≠ "" from hname)
  refine ⟨_, ?_, rfl⟩
  rw [hafter, Resolver.declareFunction, Resolver.run_unlessHalted _ _ rfl]
  exact Resolver.run_bind hdeclare

end Variables

section Structs

theorem isStructNamed_struct (scope : ScopePath) (id : Ident) (fields : List Formal)
    (name : String) :
    Occurrence.isStructNamed name ⟨scope, .struct id fields⟩ = (id.name == name) := rfl

/-- The registry has the names of the structs that were walked over. -/
theorem contains_registryAfter {name : String} (hname : isReservedTypeName name = false)
    (before : List Occurrence) :
    (registryAfter before).contains name =
      before.any (Occurrence.isStructNamed name) := by
  induction before using List.reverseRecOn with
  | nil => rfl
  | append_singleton before occurrence ih =>
      have hentries : (registryAfter (before ++ [occurrence])).entries =
          (registryAfter before).entries ++ occurrence.structs before := by
        rw [registryAfter, inOrder_append, List.nil_append, inOrder_singleton,
          registryAfter]
      rw [StructRegistry.contains] at ih ⊢
      rw [hentries, List.any_append, ih, List.any_append, List.any_cons, List.any_nil,
        Bool.or_false]
      obtain ⟨scope, site⟩ := occurrence
      cases site with
      | struct id fields =>
          rw [isStructNamed_struct]
          by_cases hsame : id.name = name
          · subst hsame
            cases hearlier : before.any (Occurrence.isStructNamed id.name) with
            | true => simp
            | false =>
                simp [Occurrence.structs, structFault?, hname, hearlier, structSymbol]
          · cases hfault : structFault? before id.name with
            | none => simp [Occurrence.structs, structSymbol, hfault]
            | some fault => simp [Occurrence.structs, hfault, hsame]
      | _ => rfl

theorem refusal?_registryAfter (before : List Occurrence) (name : String) :
    (registryAfter before).refusal? name = structFault? before name := by
  rw [StructRegistry.refusal?, structFault?]
  cases hname : isReservedTypeName name with
  | true => rfl
  | false => rw [contains_registryAfter hname]

theorem StructRegistry.setFields_of_new {entries : List StructInfo} {symbol : Symbol}
    (hnew : StructRegistry.contains ⟨entries⟩ symbol.name = false)
    (table fields : SymbolTable) :
    StructRegistry.setFields ⟨entries ++ [⟨symbol, table⟩]⟩ symbol.name fields =
      ⟨entries ++ [⟨symbol, fields⟩]⟩ := by
  have hentries : (entries.map fun info =>
      if info.symbol.name = symbol.name then ⟨info.symbol, fields⟩ else info) =
        entries := by
    refine (List.map_congr_left fun info hinfo => ?_).trans (List.map_id entries)
    rw [StructRegistry.contains, List.any_eq_false] at hnew
    exact if_neg (by simpa using hnew info hinfo)
  rw [StructRegistry.setFields, List.map_append, hentries, List.map_cons, if_pos rfl,
    List.map_nil]

/-- A field as the declaration that it is written as. -/
def Formal.asDecl (field : Formal) : Decl := .var field.type field.id

theorem eq_map_asDecl {fields : List Decl}
    (h : fields.all (fun field => field.field?.isSome) = true) :
    fields = (fields.filterMap Decl.field?).map Formal.asDecl := by
  induction fields with
  | nil => rfl
  | cons field rest ih =>
      rw [List.all_cons, Bool.and_eq_true] at h
      cases field with
      | var type id =>
          exact congrArg (Decl.var type id :: ·) (ih h.2)
      | _ => exact absurd h.1 nofun

theorem filterMap_asDecl (fields : List Formal) :
    (fields.map Formal.asDecl).filterMap Decl.field? = fields := by
  rw [List.filterMap_map]
  exact List.filterMap_some

variable (outer : List Frame) (structs : StructRegistry)

/-- The fields of a struct are declared in a table of their own. -/
theorem Decl.resolveList_fields {fields : List Formal}
    (hnames : ∀ field ∈ fields, field.id.name ≠ "") (earlier : List Formal)
    (errors : List NameError) :
    (Decl.resolveList (fields.map Formal.asDecl)).run
        (.offered (fieldSymbols earlier) outer structs errors) =
      (((inOrder (fun earlier field => [linkField earlier field]) earlier fields).map
          Formal.asDecl, firsts (fieldSymbols earlier) (fieldSymbols fields)),
        .offered (fieldSymbols (earlier ++ fields)) outer structs
          (errors ++ inOrder fieldErrors earlier fields)) := by
  induction fields generalizing earlier errors with
  | nil =>
      rw [List.append_nil, inOrder_nil, inOrder_nil, List.append_nil]
      rfl
  | cons field rest ih =>
      obtain ⟨hname, hrest⟩ := List.forall_mem_cons.mp hnames
      have hfirst := Resolver.declareVariable_offered (fieldSymbols earlier) outer structs
        errors .variable field.type hname
      have hdecl : (Decl.resolve (.var field.type field.id)).run
          (.offered (fieldSymbols earlier) outer structs errors) =
            (((linkField earlier field).asDecl,
              (firsts (fieldSymbols earlier) field.fieldSymbol?.toList).head?),
            .offered (fieldSymbols (earlier ++ [field])) outer structs
              (errors ++ fieldErrors earlier field)) := by
        rw [fieldSymbols_append, fieldSymbols_singleton, Decl.resolve]
        exact Resolver.run_bind hfirst
      have hmore := ih hrest (earlier ++ [field]) (errors ++ fieldErrors earlier field)
      have hdeclared : firsts (fieldSymbols earlier) (fieldSymbols (field :: rest)) =
          (firsts (fieldSymbols earlier) field.fieldSymbol?.toList).head?.toList ++
            firsts (fieldSymbols (earlier ++ [field])) (fieldSymbols rest) := by
        rw [head?_firsts_toList, fieldSymbols_append, fieldSymbols_singleton,
          ← List.singleton_append, fieldSymbols_append, fieldSymbols_singleton,
          firsts_append]
      rw [List.append_assoc, List.append_assoc] at hmore
      rw [List.map_cons, Formal.asDecl, Decl.resolveList, Resolver.run_bind hdecl,
        Resolver.run_bind hmore, hdeclared]
      rfl

theorem Resolver.run_withTable {table : SymbolTable} {step : Resolver α} (walk : Walk)
    {inner : Walk} {answer : α}
    (h : step.run { walk with table := table } = (answer, inner)) :
    (Resolver.withTable table step).run walk =
      ((inner.table, answer), { inner with table := walk.table }) := by
  rw [Resolver.withTable, Resolver.run_get, Resolver.run_bind (by rfl),
    Resolver.run_bind h]
  rfl

/-- A walk over a struct that is rejected leaves it as it is. -/
theorem Decl.resolve_struct_rejected {before : List Occurrence} {scope : ScopePath}
    {id : Ident} {fields : List Formal} {fault : NameFault}
    (hfault : structFault? before id.name = some fault) :
    (Decl.resolve (.struct id (fields.map Formal.asDecl))).run (.after before scope) =
      ((.struct id (fields.map Formal.asDecl), none),
        .after (before ++ [⟨scope, .struct id fields⟩]) scope) := by
  have hafter : Walk.after (before ++ [⟨scope, .struct id fields⟩]) scope = _ :=
    Walk.after_append_singleton before ⟨scope, .struct id fields⟩
  simp only [Occurrence.symbols, Occurrence.structs, Occurrence.errors,
    Occurrence.faults, hfault, Option.isSome_some, if_true, clashes, inOrder_nil,
    List.append_nil] at hafter
  have hrefusal : (Walk.after before scope).structs.refusal? id.name = some fault :=
    (refusal?_registryAfter before id.name).trans hfault
  have hreport := Resolver.report_offered (bindings before scope)
    (outerAfter before scope) (registryAfter before) (errorsAfter before) fault id.name
    id.span
  rw [hafter, Decl.resolve, Resolver.run_unlessHalted _ _ rfl, Resolver.run_get,
    hrefusal]
  exact Resolver.run_bind hreport

theorem contains_of_accepted {before : List Occurrence} {name : String}
    (h : structFault? before name = none) :
    (registryAfter before).contains name = false := by
  rw [structFault?] at h
  cases hreserved : isReservedTypeName name with
  | true => exact absurd h (by simp [hreserved])
  | false =>
      cases hearlier : before.any (Occurrence.isStructNamed name) with
      | true => exact absurd h (by simp [hreserved, hearlier])
      | false => rw [contains_registryAfter hreserved, hearlier]

theorem Resolver.registerStruct_offered (taken : List Symbol) (errors : List NameError)
    {symbol : Symbol} (hname : symbol.name ≠ "")
    (hnew : structs.contains symbol.name = false) :
    (Resolver.registerStruct symbol).run (.offered taken outer structs errors) =
      ((), .offered taken outer ⟨structs.entries ++ [⟨symbol, .new⟩]⟩ errors) := by
  have hregister : structs.register ⟨symbol, .new⟩ =
      .ok ⟨structs.entries ++ [⟨symbol, .new⟩]⟩ := by
    rw [StructRegistry.register, if_neg hname, if_neg (by simp [hnew])]
  rw [Resolver.registerStruct, Resolver.run_get]
  have hstructs : (Walk.offered taken outer structs errors).structs = structs := rfl
  rw [hstructs, hregister]
  rfl

theorem Resolver.completeStruct_offered (taken : List Symbol) (errors : List NameError)
    {symbol : Symbol} (hnew : structs.contains symbol.name = false)
    (fields : SymbolTable) {declared : List Symbol}
    (hnames : ∀ field ∈ declared, field.name ≠ "") :
    (Resolver.completeStruct symbol.name fields declared).run
        (.offered taken outer ⟨structs.entries ++ [⟨symbol, .new⟩]⟩ errors) =
      ((), .offered (taken ++ declared) outer ⟨structs.entries ++ [⟨symbol, fields⟩]⟩
        (errors ++ clashes taken declared)) := by
  have hset : (modify fun walk =>
      { walk with structs := walk.structs.setFields symbol.name fields } :
        Resolver Unit).run
          (.offered taken outer ⟨structs.entries ++ [⟨symbol, .new⟩]⟩ errors) =
        ((), .offered taken outer ⟨structs.entries ++ [⟨symbol, fields⟩]⟩ errors) := by
    rw [← StructRegistry.setFields_of_new hnew .new fields]
    rfl
  rw [Resolver.completeStruct, Resolver.run_unlessHalted _ _ rfl, Resolver.run_bind hset]
  exact Resolver.exposeFields_offered taken outer _ errors hnames

/-- A walk over a struct that is not rejected: the fields are linked to the symbols of
the table of the struct, and the struct is registered. -/
theorem Decl.resolve_struct_accepted {before : List Occurrence} {scope : ScopePath}
    {id : Ident} {fields : List Formal} (hname : id.name ≠ "")
    (hnames : ∀ field ∈ fields, field.id.name ≠ "")
    (hfault : structFault? before id.name = none) :
    (Decl.resolve (.struct id (fields.map Formal.asDecl))).run (.after before scope) =
      ((.struct (id.linkTo (some (structSymbol id)))
          ((inOrder (fun earlier field => [linkField earlier field]) [] fields).map
            Formal.asDecl), none),
        .after (before ++ [⟨scope, .struct id fields⟩]) scope) := by
  have hafter : Walk.after (before ++ [⟨scope, .struct id fields⟩]) scope = _ :=
    Walk.after_append_singleton before ⟨scope, .struct id fields⟩
  simp only [Occurrence.symbols, Occurrence.structs, Occurrence.errors,
    Occurrence.faults, hfault, Option.isSome_none, Bool.false_eq_true, if_false]
    at hafter
  have hrefusal : (Walk.after before scope).structs.refusal? id.name = none :=
    (refusal?_registryAfter before id.name).trans hfault
  have hnew : (registryAfter before).contains (structSymbol id).name = false :=
    contains_of_accepted hfault
  have hregister := Resolver.registerStruct_offered (outerAfter before scope)
    (registryAfter before) (bindings before scope) (errorsAfter before)
    (show (structSymbol id).name ≠ "" from hname) hnew
  have hfields := Decl.resolveList_fields []
    ⟨(registryAfter before).entries ++ [⟨structSymbol id, .new⟩]⟩ hnames []
    (errorsAfter before)
  have hdeclared : ∀ symbol ∈ firsts [] (fieldSymbols fields), symbol.name ≠ "" := by
    intro symbol hsymbol
    obtain ⟨field, hfield, hsame⟩ := name_of_mem_fieldSymbols (mem_of_mem_firsts hsymbol)
    rw [hsame]
    exact hnames field hfield
  have hcomplete := Resolver.completeStruct_offered (outerAfter before scope)
    (registryAfter before) (bindings before scope)
    (errorsAfter before ++ inOrder fieldErrors [] fields) hnew
    ⟨[frameOf (fieldSymbols fields)]⟩ hdeclared
  rw [hafter, Decl.resolve, Resolver.run_unlessHalted _ _ rfl, Resolver.run_get,
    hrefusal, ← List.append_assoc]
  have hinner := Resolver.run_withTable (.offered (bindings before scope)
    (outerAfter before scope) _ (errorsAfter before)) hfields
  exact (Resolver.run_bind hregister).trans <|
    (Resolver.run_bind hinner).trans (Resolver.run_bind hcomplete)

/-- Declaring a struct is walking over its occurrence. -/
theorem Decl.links_struct {scope : ScopePath} {before : List Occurrence} {id : Ident}
    {fields : List Formal} (hname : id.name ≠ "")
    (hnames : ∀ field ∈ fields, field.id.name ≠ "") (index : Nat) :
    Links (Decl.resolve (.struct id (fields.map Formal.asDecl)))
      (fun answer => answer.1.occurrences scope index) scope before
      [⟨scope, .struct id fields⟩] := by
  cases hfault : structFault? before id.name with
  | some fault =>
      refine ⟨_, Decl.resolve_struct_rejected hfault, ?_⟩
      simp only [Decl.occurrences, filterMap_asDecl]
      simp [linked, Occurrence.linkedSite, hfault]
  | none =>
      refine ⟨_, Decl.resolve_struct_accepted hname hnames hfault, ?_⟩
      simp only [Decl.occurrences, filterMap_asDecl]
      simp [linked, Occurrence.linkedSite, hfault]

end Structs

end MiniLang

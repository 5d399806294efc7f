/-
What the phases behind are told about the names of a program: its struct types with their
fields, and the symbols of its outermost scope.
-/
import MiniLang.Proofs.Resolution.Diagnostics
import MiniLang.Proofs.Resolution.Ordering

namespace MiniLang

section Firsts

/-- What is found under a name among all symbols is found among the first ones. -/
theorem find?_firsts (name : String) (symbols : List Symbol) :
    (firsts [] symbols).find? (declares name) = symbols.find? (declares name) := by
  induction symbols using List.reverseRecOn with
  | nil => rfl
  | append_singleton symbols symbol ih =>
      rw [firsts_append_singleton, List.find?_append, List.find?_append, ih]
      cases htaken : symbols.any (declares symbol.name) with
      | false => rw [firsts_of_new htaken]
      | true =>
          rw [firsts_of_taken htaken, List.find?_nil, Option.or_none]
          by_cases hname : symbol.name = name
          · rw [hname, ← List.isSome_find?] at htaken
            rw [Option.or_of_isSome htaken]
          · have hother : ¬ declares name symbol = true := by simpa [declares] using hname
            rw [List.find?_singleton, if_neg hother, Option.or_none]

/-- No two of the first symbols have the same name. -/
theorem firsts_distinct (symbols : List Symbol) :
    ((firsts [] symbols).map Symbol.name).Nodup := by
  induction symbols using List.reverseRecOn with
  | nil => exact List.nodup_nil
  | append_singleton symbols symbol ih =>
      rw [firsts_append_singleton]
      cases htaken : symbols.any (declares symbol.name) with
      | true => rwa [firsts_of_taken htaken, List.append_nil]
      | false =>
          rw [firsts_of_new htaken, List.map_append, List.map_singleton]
          apply ih.append (List.nodup_singleton _)
          rw [List.disjoint_singleton]
          intro hmem
          obtain ⟨other, hother, hname⟩ := List.mem_map.mp hmem
          rw [← any_firsts, List.any_eq_false] at htaken
          exact htaken other hother (by simpa [declares] using hname)

/-- A symbol is a first one if it is what is found under its name. -/
theorem mem_firsts_iff {symbols : List Symbol} {symbol : Symbol} :
    symbol ∈ firsts [] symbols ↔ symbols.find? (declares symbol.name) = some symbol := by
  rw [← find?_firsts]
  constructor
  · intro hmem
    have hsome : ((firsts [] symbols).find? (declares symbol.name)).isSome = true := by
      rw [List.isSome_find?, List.any_eq_true]
      exact ⟨symbol, hmem, by simp [declares]⟩
    obtain ⟨other, hother⟩ := Option.isSome_iff_exists.mp hsome
    have hname : other.name = symbol.name := by
      simpa [declares] using List.find?_some hother
    rw [hother, List.inj_on_of_nodup_map (firsts_distinct symbols)
      (List.mem_of_find?_eq_some hother) hmem hname]
  · exact List.mem_of_find?_eq_some

theorem map_fst_frameOf (symbols : List Symbol) :
    (frameOf symbols).map Prod.fst = ((firsts [] symbols).map Symbol.name).reverse := by
  rw [frameOf, List.map_reverse, List.map_map]
  rfl

theorem map_snd_frameOf (symbols : List Symbol) :
    (frameOf symbols).map Prod.snd = (firsts [] symbols).reverse := by
  rw [frameOf, List.map_reverse, List.map_map]
  exact congrArg List.reverse (List.map_id _)

end Firsts

section Globals

/-- The outermost scope has the symbols that it has accepted. -/
theorem innermostSymbols_after (occurrences : List Occurrence) (scope : ScopePath) :
    (Walk.after occurrences scope).table.innermostSymbols =
      sortByName (accepted occurrences scope).reverse := by
  rw [accepted, ← map_snd_frameOf]
  rfl

theorem globals_ascend (occurrences : List Occurrence) (scope : ScopePath) :
    (Walk.after occurrences scope).table.innermostSymbols.Pairwise
      fun symbol other => symbol.name < other.name := by
  rw [innermostSymbols_after]
  apply sortByName_ascends
  rw [List.map_reverse, List.nodup_reverse]
  exact firsts_distinct _

theorem mem_globals_iff {occurrences : List Occurrence} {scope : ScopePath}
    {symbol : Symbol} :
    symbol ∈ (Walk.after occurrences scope).table.innermostSymbols ↔
      (bindings occurrences scope).find? (declares symbol.name) = some symbol := by
  rw [innermostSymbols_after, (sortByName_perm _).mem_iff, List.mem_reverse, accepted,
    mem_firsts_iff]

end Globals

section Structs

theorem entries_registryAfter_append (before : List Occurrence)
    (occurrences : List Occurrence) :
    (registryAfter (before ++ occurrences)).entries = (registryAfter before).entries ++
      inOrder (fun earlier occurrence => occurrence.structs earlier) before occurrences :=
  inOrder_append _ [] before occurrences

theorem structs_of_accepted {before : List Occurrence} {id : Ident}
    (h : structFault? before id.name = none) (scope : ScopePath) (fields : List Formal) :
    Occurrence.structs before ⟨scope, .struct id fields⟩ =
      [⟨structSymbol id, ⟨[frameOf (fieldSymbols fields)]⟩⟩] :=
  if_neg (by simp [h])

theorem structs_of_rejected {before : List Occurrence} {id : Ident} {fault : NameFault}
    (h : structFault? before id.name = some fault) (scope : ScopePath)
    (fields : List Formal) : Occurrence.structs before ⟨scope, .struct id fields⟩ = [] :=
  if_pos (by simp [h])

/-- No two registered struct types have the same name. -/
theorem registryAfter_distinct (occurrences : List Occurrence) :
    ((registryAfter occurrences).entries.map (·.symbol.name)).Nodup := by
  induction occurrences using List.reverseRecOn with
  | nil => exact List.nodup_nil
  | append_singleton before occurrence ih =>
      rw [entries_registryAfter_append, inOrder_singleton]
      obtain ⟨scope, site⟩ := occurrence
      cases site with
      | struct id fields =>
          cases hfault : structFault? before id.name with
          | some fault => rwa [structs_of_rejected hfault, List.append_nil]
          | none =>
              rw [structs_of_accepted hfault, List.map_append, List.map_singleton]
              apply ih.append (List.nodup_singleton _)
              rw [List.disjoint_singleton]
              intro hmem
              obtain ⟨info, hinfo, hname⟩ := List.mem_map.mp hmem
              have hnew := contains_of_accepted hfault
              rw [StructRegistry.contains, List.any_eq_false] at hnew
              exact hnew info hinfo (by simpa [structSymbol] using hname)
      | _ => simpa [Occurrence.structs] using ih

/-- The names of struct types are those of the struct declarations that are not
reserved. -/
theorem contains_registryAfter_iff {occurrences : List Occurrence} {name : String} :
    (registryAfter occurrences).contains name = true ↔
      isReservedTypeName name = false ∧
        ∃ occurrence ∈ occurrences, occurrence.isStructNamed name = true := by
  cases hreserved : isReservedTypeName name with
  | false =>
      rw [contains_registryAfter hreserved, List.any_eq_true]
      simp
  | true =>
      constructor
      · intro hcontains
        obtain ⟨info, hinfo, hname⟩ := List.any_eq_true.mp hcontains
        obtain ⟨front, ⟨scope, site⟩, back, _, hmem⟩ := mem_inOrder_iff.mp hinfo
        cases site with
        | struct id fields =>
            cases hfault : structFault? ([] ++ front) id.name with
            | some fault =>
                rw [structs_of_rejected hfault] at hmem
                exact absurd hmem List.not_mem_nil
            | none =>
                rw [structs_of_accepted hfault] at hmem
                obtain rfl := List.mem_singleton.mp hmem
                obtain rfl : id.name = name := by simpa [structSymbol] using hname
                rw [structFault?, if_pos hreserved] at hfault
                cases hfault
        | _ => exact absurd hmem List.not_mem_nil
      · rintro ⟨hfalse, _⟩
        cases hfalse

/-- A struct type is what the first declaration of its name made it. -/
theorem get?_registryAfter {before behind : List Occurrence} {scope : ScopePath}
    {id : Ident} {fields : List Formal} (hfirst : structFault? before id.name = none) :
    (registryAfter (before ++ ⟨scope, .struct id fields⟩ :: behind)).get? id.name =
      some ⟨structSymbol id, ⟨[frameOf (fieldSymbols fields)]⟩⟩ := by
  have hnew := contains_of_accepted hfirst
  have hnone : (registryAfter before).entries.find? (·.symbol.name == id.name) = none := by
    rw [← Option.isNone_iff_eq_none, ← Option.isSome_eq_false_iff, List.isSome_find?]
    exact hnew
  rw [StructRegistry.get?, entries_registryAfter_append, List.find?_append, hnone,
    Option.none_or, inOrder, structs_of_accepted hfirst, List.singleton_append,
    List.find?_cons_of_pos]
  simp [structSymbol]

/-- Whether a field has a name and a type other than `void`. -/
def Formal.isNamed (name : String) (field : Formal) : Bool :=
  field.type.type != .void && field.id.name == name

/-- The fields of a struct stand for the first ones of their names. -/
theorem find?_fieldSymbols (name : String) (fields : List Formal) :
    (fieldSymbols fields).find? (declares name) =
      (fields.find? (Formal.isNamed name)).map Formal.ownSymbol := by
  induction fields with
  | nil => rfl
  | cons field rest ih =>
      rw [← List.singleton_append, fieldSymbols_append, fieldSymbols_singleton,
        List.find?_append, ih, List.find?_append]
      by_cases hvoid : field.type.type = .void
      · rw [fieldSymbol?_of_void hvoid]
        simp [Formal.isNamed, hvoid]
      · rw [fieldSymbol?_of_not_void hvoid]
        by_cases hname : field.id.name = name
        · simp [Formal.isNamed, declares, Formal.ownSymbol, hvoid, hname]
        · simp [Formal.isNamed, declares, Formal.ownSymbol, hvoid, hname]

/-- The first field of a name is linked to its own symbol. -/
theorem find?_linkField {name : String} {earlier fields : List Formal}
    (hnew : (fieldSymbols earlier).any (declares name) = false) :
    ((inOrder (fun earlier field => [linkField earlier field]) earlier fields).find?
        (Formal.isNamed name)).bind (·.id.symbol) =
      (fields.find? (Formal.isNamed name)).map Formal.ownSymbol := by
  induction fields generalizing earlier with
  | nil => rfl
  | cons field rest ih =>
      have hsame : Formal.isNamed name (linkField earlier field) =
          Formal.isNamed name field := rfl
      rw [inOrder, List.singleton_append, List.find?_cons, List.find?_cons, hsame]
      cases hnamed : Formal.isNamed name field with
      | true =>
          obtain ⟨hvoid, hname⟩ : field.type.type ≠ .void ∧ field.id.name = name := by
            simpa [Formal.isNamed] using hnamed
          have hown : (fieldSymbols earlier).any (declares field.ownSymbol.name) =
              false := by rwa [Formal.ownSymbol, hname]
          rw [Option.bind_some, linkField, fieldSymbol?_of_not_void hvoid,
            Option.toList_some, firsts_of_new hown]
          rfl
      | false =>
          apply ih
          rw [fieldSymbols_append, List.any_append, hnew, Bool.false_or,
            fieldSymbols_singleton]
          by_cases hvoid : field.type.type = .void
          · rw [fieldSymbol?_of_void hvoid]
            rfl
          · rw [fieldSymbol?_of_not_void hvoid]
            simpa [Formal.isNamed, hvoid, declares, Formal.ownSymbol] using hnamed

/-- What is registered and linked for the first struct of its name. -/
theorem linkedSite_of_accepted {before : List Occurrence} {id : Ident}
    (h : structFault? before id.name = none) (scope : ScopePath) (fields : List Formal) :
    Occurrence.linkedSite before ⟨scope, .struct id fields⟩ =
      .struct ⟨id.name, id.span, some (structSymbol id)⟩
        (inOrder (fun earlier field => [linkField earlier field]) [] fields) :=
  if_neg (by simp [h])

end Structs

/-- What the phases behind are told about the names of a parsed program. The names of the
struct types are those of the struct declarations. A struct type has the symbol that the
first declaration of its name is linked to, and a single frame for its fields, where a name
stands for the first field of it in that declaration that is not of type `void`, whatever
the scope around binds. The symbols of the outermost scope ascend by their names; they are
those that come first under their names among what variables, functions and structs offer
to that scope, and there are no others. -/
theorem Program.resolve_namespace {source : String} {program : Program}
    (h : parseTokens (scan source).tokens = .ok program) :
    ∃ names, program.resolve.outcome = .ok names ∧
      names.structs.names.Pairwise (· < ·) ∧
      (∀ name, name ∈ names.structs.names ↔
        ∃ occurrence ∈ program.occurrences, occurrence.isStructNamed name = true) ∧
      (∀ before scope id fields behind,
        program.occurrences = before ++ ⟨scope, .struct id fields⟩ :: behind →
        before.any (Occurrence.isStructNamed id.name) = false →
        ∃ symbol frame fields',
          names.structs.get? id.name = some ⟨symbol, ⟨[frame]⟩⟩ ∧
          symbol = ⟨id.name, .struct, id.span⟩ ∧
          program.resolve.program.occurrences[before.length]? =
            some ⟨scope, .struct ⟨id.name, id.span, some symbol⟩ fields'⟩ ∧
          (frame.map Prod.fst).Nodup ∧
          ∀ name,
            frame.lookup name =
              (fields.find? (Formal.isNamed name)).map Formal.ownSymbol ∧
            frame.lookup name =
              (fields'.find? (Formal.isNamed name)).bind (·.id.symbol)) ∧
      names.globals.Pairwise (fun symbol other => symbol.name < other.name) ∧
      ∀ symbol, symbol ∈ names.globals ↔
        (bindings program.occurrences []).find? (declares symbol.name) = some symbol := by
  have hraw := Program.raw_of_parse h
  have hnamed : Named program.occurrences := fun occurrence hoccurrence id hid =>
    hraw.named id (List.mem_flatMap.mpr ⟨occurrence, hoccurrence, hid⟩)
  have hunreserved : ∀ {occurrence name}, occurrence ∈ program.occurrences →
      occurrence.isStructNamed name = true → isReservedTypeName name = false := by
    rintro ⟨scope, site⟩ name hoccurrence hstruct
    cases site with
    | struct id fields =>
        obtain rfl : id.name = name := by simpa [Occurrence.isStructNamed] using hstruct
        exact (Program.fresh_of_parse h _ hoccurrence id List.mem_cons_self).2
    | _ => cases hstruct
  obtain ⟨hprogram, _, houtcome⟩ := Program.resolve_walks hraw.plain hnamed
  refine ⟨_, houtcome, ?_, ?_, ?_, globals_ascend _ _, fun symbol => mem_globals_iff⟩
  · exact StructRegistry.names_ascend (registryAfter_distinct _)
  · intro name
    rw [StructRegistry.mem_names, contains_registryAfter_iff]
    constructor
    · exact And.right
    · rintro ⟨occurrence, hoccurrence, hstruct⟩
      exact ⟨hunreserved hoccurrence hstruct, occurrence, hoccurrence, hstruct⟩
  · intro before scope id fields behind hsplit hfirst
    have hmem : ⟨scope, .struct id fields⟩ ∈ program.occurrences := by
      rw [hsplit]
      exact List.mem_append_right _ List.mem_cons_self
    have hfault : structFault? before id.name = none := by
      rw [structFault?_of_unreserved (hunreserved hmem (beq_self_eq_true id.name)), hfirst]
      rfl
    refine ⟨structSymbol id, frameOf (fieldSymbols fields),
      inOrder (fun earlier field => [linkField earlier field]) [] fields, ?_, rfl, ?_, ?_,
      fun name => ⟨?_, ?_⟩⟩
    · dsimp only
      rw [hsplit]
      exact get?_registryAfter hfault
    · rw [hprogram, hsplit, getElem?_linked, linkedSite_of_accepted hfault]
    · rw [map_fst_frameOf, List.nodup_reverse]
      exact firsts_distinct _
    · rw [lookup_frameOf, find?_firsts, find?_fieldSymbols]
    · rw [lookup_frameOf, find?_firsts, find?_fieldSymbols, find?_linkField rfl]

/-- A field that clashes with a variable is still that of its struct, and the variable
stays what the outermost scope has; a second struct of the name adds nothing. -/
theorem Program.resolve_namespace_clash : ∃ program names frame,
    parseTokens (scan ("int p; struct A { bool p; int q; void r; bool q; }; " ++
      "struct A { int s; }; int f(int x) { int y; }")).tokens = .ok program ∧
    program.resolve.outcome = .ok names ∧ "A" ∈ names.structs.names ∧
    names.structs.get? "A" =
      some ⟨⟨"A", .struct, Span.ofLength ⟨1, 15⟩ 1⟩, ⟨[frame]⟩⟩ ∧
    frame.lookup "p" = some ⟨"p", .var .bool, Span.ofLength ⟨1, 24⟩ 1⟩ ∧
    frame.lookup "q" = some ⟨"q", .var .int, Span.ofLength ⟨1, 31⟩ 1⟩ ∧
    frame.lookup "r" = none ∧ frame.lookup "s" = none ∧
    (⟨"p", .var .int, Span.ofLength ⟨1, 5⟩ 1⟩ : Symbol) ∈ names.globals ∧
    (⟨"q", .var .int, Span.ofLength ⟨1, 31⟩ 1⟩ : Symbol) ∈ names.globals ∧
    ∀ symbol ∈ names.globals, symbol.name ≠ "x" ∧ symbol.name ≠ "y" := by
  let name (text : String) (column : Nat) : Ident :=
    ⟨text, Span.ofLength ⟨1, column⟩ 1, none⟩
  let program : Program := ⟨[.var .int (name "p" 5),
    .struct (name "A" 15) [.var .bool (name "p" 24), .var .int (name "q" 31),
      .var .void (name "r" 39), .var .bool (name "q" 47)],
    .struct (name "A" 60) [.var .int (name "s" 68)],
    .func .int (name "f" 78) [⟨.int, name "x" 84⟩] (.mk [.var .int (name "y" 93)] [])]⟩
  have hparse : parseTokens (scan ("int p; struct A { bool p; int q; void r; bool q; }; " ++
      "struct A { int s; }; int f(int x) { int y; }")).tokens = .ok program := by cbv
  obtain ⟨names, houtcome, _, hnames, hstructs, _, hglobals⟩ :=
    Program.resolve_namespace hparse
  obtain ⟨_, frame, _, hget, rfl, _, _, hfields⟩ :=
    hstructs (program.occurrences.take 1) [] (name "A" 15) _ _ rfl (by decide)
  refine ⟨program, names, frame, hparse, houtcome, ?_, hget, ?_, ?_, ?_, ?_, ?_, ?_, ?_⟩
  · rw [hnames]
    decide
  · rw [(hfields "p").1]
    decide
  · rw [(hfields "q").1]
    decide
  · rw [(hfields "r").1]
    decide
  · rw [(hfields "s").1]
    decide
  · rw [hglobals]
    decide
  · rw [hglobals]
    decide
  · intro symbol hsymbol
    have hmem := List.mem_of_find?_eq_some ((hglobals symbol).mp hsymbol)
    have hall : ∀ symbol ∈ bindings program.occurrences [],
        symbol.name ≠ "x" ∧ symbol.name ≠ "y" := by decide
    exact hall symbol hmem

end MiniLang

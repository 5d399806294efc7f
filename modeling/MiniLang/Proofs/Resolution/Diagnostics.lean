/-
What becomes of declarations. Every name that a program declares has one fate, which
says whether it is linked and which error is reported at it.
-/
import MiniLang.Proofs.Resolution.Linking

namespace MiniLang

/-- What becomes of a declared name. -/
inductive Fate where
  | void
  | taken
  | repeated
  | rejected
  | ignored
  | clashing
  | declared
deriving Repr, DecidableEq

/-- What is wrong with a declared name. -/
def Fate.fault? : Fate → Option NameFault
  | .void => some .voidVariable
  | .taken => some .duplicateDeclaration
  | .repeated => some .duplicateDeclaration
  | .rejected => some .duplicateDeclaration
  | .clashing => some .duplicateDeclaration
  | .ignored => none
  | .declared => none

/-- Whether a declared name is linked to its symbol. -/
def Fate.links : Fate → Bool
  | .clashing => true
  | .declared => true
  | _ => false

/-- A declared name, the kind of its symbol, and what becomes of it. -/
structure Declaration where
  id : Ident
  kind : SymbolKind
  fate : Fate
deriving Repr, DecidableEq

/-- The errors at a name. -/
def errorsAt (id : Ident) (fault : Option NameFault) : List NameError :=
  fault.toList.map fun fault => ⟨fault, id.name, id.span⟩

def Declaration.errors (declaration : Declaration) : List NameError :=
  errorsAt declaration.id declaration.fate.fault?

/-- The name of a declaration, behind the walk over it. -/
def Declaration.linked (declaration : Declaration) : Ident :=
  ⟨declaration.id.name, declaration.id.span,
    if declaration.fate.links then
      some ⟨declaration.id.name, declaration.kind, declaration.id.span⟩
    else none⟩

/-- Whether a declaration clashes with the scope around its struct. -/
def Declaration.isClashing (declaration : Declaration) : Bool :=
  declaration.fate == .clashing

/-- What becomes of a name that is offered to a scope with some bindings. -/
def offeredFate (bound : List Symbol) (name : String) : Fate :=
  if bound.any (declares name) then .taken else .declared

/-- What becomes of a field of a struct that is not rejected: `bound` are the bindings
of the scope around the struct. -/
def fieldFate (bound : List Symbol) (earlier : List Formal) (field : Formal) : Fate :=
  if field.type.type = .void then .void
  else if (fieldSymbols earlier).any (declares field.id.name) then .repeated
  else if bound.any (declares field.id.name) then .clashing
  else .declared

/-- The declaration of a field of a struct that is not rejected. -/
def fieldDeclaration (bound : List Symbol) (earlier : List Formal) (field : Formal) :
    Declaration :=
  ⟨field.id, .var field.type.type, fieldFate bound earlier field⟩

def fieldDeclarations (bound : List Symbol) (earlier fields : List Formal) :
    List Declaration :=
  inOrder (fun earlier field => [fieldDeclaration bound earlier field]) earlier fields

/-- The declarations at an occurrence. A struct is rejected when a struct in front of it
has its name. -/
def Occurrence.declarations (before : List Occurrence) (occurrence : Occurrence) :
    List Declaration :=
  let bound := bindings before occurrence.scope
  match occurrence.site with
  | .named binding type id =>
      [⟨id, binding.kind type.type,
        if type.type = .void then .void else offeredFate bound id.name⟩]
  | .function signature id => [⟨id, .function signature, offeredFate bound id.name⟩]
  | .struct id fields =>
      if before.any (Occurrence.isStructNamed id.name) then
        ⟨id, .struct, .rejected⟩
          :: fields.map fun field => ⟨field.id, .var field.type.type, .ignored⟩
      else ⟨id, .struct, .declared⟩ :: fieldDeclarations bound [] fields
  | .use _ => []

/-- The declarations of a program, in the order of a walk. -/
def Program.declarations (program : Program) : List Declaration :=
  inOrder Occurrence.declarations [] program.occurrences

/-- The errors that are reported at an occurrence, in their order: those of fields that
clash come last. -/
def Occurrence.reports (before : List Occurrence) (occurrence : Occurrence) :
    List NameError :=
  match occurrence.site with
  | .use id =>
      if (visible before occurrence.scope id.name).isSome then []
      else [undeclaredError id]
  | _ =>
      let declarations := occurrence.declarations before
      (declarations.filter (!·.isClashing)
        ++ declarations.filter (·.isClashing)).flatMap Declaration.errors

section Fields

variable (bound : List Symbol)

/-- The symbol that a field that is not of type `void` has. -/
def Formal.ownSymbol (field : Formal) : Symbol :=
  ⟨field.id.name, .var field.type.type, field.id.span⟩

theorem fieldSymbol?_of_void {field : Formal} (h : field.type.type = .void) :
    field.fieldSymbol? = none := if_pos h

theorem fieldSymbol?_of_not_void {field : Formal} (h : field.type.type ≠ .void) :
    field.fieldSymbol? = some field.ownSymbol := if_neg h

/-- The first look at the fields reports the ones that do not clash. -/
theorem fieldErrors_eq (earlier : List Formal) (field : Formal) :
    fieldErrors earlier field =
      ([fieldDeclaration bound earlier field].filter (!·.isClashing)).flatMap
        Declaration.errors := by
  rw [fieldErrors, voidErrors, fieldDeclaration, fieldFate]
  by_cases hvoid : field.type.type = .void
  · rw [fieldSymbol?_of_void hvoid, if_pos hvoid, if_pos hvoid]
    rfl
  · rw [fieldSymbol?_of_not_void hvoid, if_neg hvoid, if_neg hvoid, Option.toList_some]
    cases hname : (fieldSymbols earlier).any (declares field.id.name) with
    | true =>
        have hown : (fieldSymbols earlier).any (declares field.ownSymbol.name) := hname
        rw [clashes_of_taken hown, if_pos rfl]
        rfl
    | false =>
        have hown : (fieldSymbols earlier).any (declares field.ownSymbol.name) = false :=
          hname
        rw [clashes_of_new hown, if_neg Bool.false_ne_true]
        cases bound.any (declares field.id.name) <;> rfl

/-- The field that a struct is given carries the link that its fate says. -/
theorem linkField_eq {earlier : List Formal} {field : Formal}
    (hunlinked : field.id.symbol = none) :
    (linkField earlier field).id = (fieldDeclaration bound earlier field).linked := by
  rw [linkField, fieldDeclaration, fieldFate]
  by_cases hvoid : field.type.type = .void
  · rw [fieldSymbol?_of_void hvoid, if_pos hvoid]
    simp [Ident.linkTo, Declaration.linked, Fate.links, hunlinked, firsts]
  · rw [fieldSymbol?_of_not_void hvoid, if_neg hvoid, Option.toList_some]
    cases hname : (fieldSymbols earlier).any (declares field.id.name) with
    | true =>
        have hown : (fieldSymbols earlier).any (declares field.ownSymbol.name) := hname
        rw [firsts_of_taken hown, if_pos rfl]
        simp [Ident.linkTo, Declaration.linked, Fate.links, hunlinked]
    | false =>
        have hown : (fieldSymbols earlier).any (declares field.ownSymbol.name) = false :=
          hname
        rw [firsts_of_new hown, if_neg Bool.false_ne_true]
        cases bound.any (declares field.id.name) <;> rfl

/-- The second look at the fields reports the ones that clash with a binding of the
scope around the struct. -/
theorem clashes_fields (earlier fields : List Formal) :
    clashes (bound ++ firsts [] (fieldSymbols earlier))
        (firsts (fieldSymbols earlier) (fieldSymbols fields)) =
      ((fieldDeclarations bound earlier fields).filter (·.isClashing)).flatMap
        Declaration.errors := by
  induction fields generalizing earlier with
  | nil => rfl
  | cons field rest ih =>
      have hmore := ih (earlier ++ [field])
      rw [fieldSymbols_append, fieldSymbols_singleton] at hmore
      rw [← List.singleton_append, fieldSymbols_append, fieldSymbols_singleton,
        firsts_append, fieldDeclarations, inOrder_append, List.filter_append,
        List.flatMap_append, ← fieldDeclarations, ← fieldDeclarations, ← hmore,
        fieldDeclarations, inOrder_singleton, fieldDeclaration, fieldFate]
      by_cases hvoid : field.type.type = .void
      · rw [fieldSymbol?_of_void hvoid, if_pos hvoid]
        simp [firsts, Declaration.isClashing]
      · rw [fieldSymbol?_of_not_void hvoid, if_neg hvoid, Option.toList_some,
          firsts_append_singleton]
        cases hname : (fieldSymbols earlier).any (declares field.id.name) with
        | true =>
            have hown : (fieldSymbols earlier).any (declares field.ownSymbol.name) :=
              hname
            rw [firsts_of_taken hown, if_pos rfl, List.append_nil]
            rfl
        | false =>
            have hown : (fieldSymbols earlier).any (declares field.ownSymbol.name) =
                false := hname
            have hbound : (bound ++ firsts [] (fieldSymbols earlier)).any
                (declares field.ownSymbol.name) = bound.any (declares field.id.name) := by
              rw [List.any_append, any_firsts, hown, Bool.or_false]
              rfl
            rw [firsts_of_new hown, if_neg Bool.false_ne_true, clashes_append,
              List.append_assoc]
            congr 1
            cases hclash : bound.any (declares field.id.name) with
            | true =>
                rw [clashes_of_taken (hbound.trans hclash), if_pos rfl]
                rfl
            | false =>
                rw [clashes_of_new (hbound.trans hclash), if_neg Bool.false_ne_true]
                rfl

end Fields

section Offered

variable {bound : List Symbol} {id : Ident} {kind : SymbolKind}

theorem linkTo_offered (hunlinked : id.symbol = none) :
    id.linkTo (firsts bound [⟨id.name, kind, id.span⟩]).head? =
      Declaration.linked ⟨id, kind, offeredFate bound id.name⟩ := by
  rw [offeredFate]
  cases hname : bound.any (declares id.name) with
  | true =>
      rw [firsts_of_taken hname]
      simp [Ident.linkTo, hunlinked, Declaration.linked, Fate.links]
  | false =>
      rw [firsts_of_new hname]
      rfl

theorem clashes_offered :
    clashes bound [⟨id.name, kind, id.span⟩] =
      Declaration.errors ⟨id, kind, offeredFate bound id.name⟩ := by
  rw [offeredFate]
  cases hname : bound.any (declares id.name) with
  | true =>
      rw [clashes_of_taken hname]
      rfl
  | false =>
      rw [clashes_of_new hname]
      rfl

theorem isClashing_offered :
    Declaration.isClashing ⟨id, kind, offeredFate bound id.name⟩ = false := by
  rw [offeredFate]
  cases bound.any (declares id.name) <;> rfl

end Offered

/-- Whether the names at an occurrence have not been resolved, and are not reserved. -/
def Occurrence.Fresh (occurrence : Occurrence) : Prop :=
  ∀ id ∈ occurrence.site.ids, id.symbol = none ∧ isReservedTypeName id.name = false

theorem structFault?_of_unreserved {before : List Occurrence} {name : String}
    (h : isReservedTypeName name = false) :
    structFault? before name =
      if before.any (Occurrence.isStructNamed name) then some .duplicateDeclaration
      else none := by
  rw [structFault?, h]
  rfl

theorem map_linked_ignored {fields : List Formal}
    (h : ∀ field ∈ fields, field.id.symbol = none) :
    (fields.map fun field => Declaration.linked
        ⟨field.id, .var field.type.type, .ignored⟩) = fields.map Formal.id := by
  refine List.map_congr_left fun field hfield => ?_
  rw [Declaration.linked, ← h field hfield]
  rfl

/-- The declared names at an occurrence are linked as their fates tell. -/
theorem Occurrence.declaring_linkedSite {before : List Occurrence}
    {occurrence : Occurrence} (h : occurrence.Fresh) :
    (occurrence.linkedSite before).declaring =
      (occurrence.declarations before).map Declaration.linked := by
  obtain ⟨scope, site⟩ := occurrence
  cases site with
  | use id => rfl
  | named binding type id =>
      have hunlinked := (h id List.mem_cons_self).1
      simp only [Occurrence.linkedSite, Occurrence.symbols, Occurrence.declarations,
        variableSymbol?, Site.declaring]
      by_cases hvoid : type.type = .void
      · simp [hvoid, firsts, Ident.linkTo, hunlinked, Declaration.linked, Fate.links]
      · rw [if_neg hvoid, if_neg hvoid, Option.toList_some, linkTo_offered hunlinked]
        rfl
  | function signature id =>
      have hunlinked := (h id List.mem_cons_self).1
      simp only [Occurrence.linkedSite, Occurrence.symbols, Occurrence.declarations,
        Site.declaring, linkTo_offered hunlinked, List.map_cons, List.map_nil]
  | struct id fields =>
      obtain ⟨hname, hfields⟩ := List.forall_mem_cons.mp h
      have hunlinked : ∀ field ∈ fields, field.id.symbol = none := fun field hfield =>
        (hfields field.id (List.mem_map_of_mem hfield)).1
      simp only [Occurrence.linkedSite, Occurrence.declarations,
        structFault?_of_unreserved hname.2]
      cases before.any (Occurrence.isStructNamed id.name) with
      | true =>
          rw [if_pos rfl, if_pos rfl, if_pos Option.isSome_some, List.map_cons,
            List.map_map]
          refine congr (congrArg List.cons ?_) (map_linked_ignored hunlinked).symm
          rw [Declaration.linked, ← hname.1]
          rfl
      | false =>
          rw [if_neg Bool.false_ne_true, if_neg Bool.false_ne_true,
            if_neg (by simp), List.map_cons]
          refine congrArg (List.cons _) ?_
          rw [fieldDeclarations, map_inOrder, map_inOrder]
          refine inOrder_congr fun earlier field hfield => ?_
          rw [List.map_singleton, List.map_singleton,
            linkField_eq (bindings before scope) (hunlinked field hfield)]

/-- The errors at an occurrence are reported as the fates of its names tell. -/
theorem Occurrence.errors_eq_reports {before : List Occurrence}
    {occurrence : Occurrence} (h : occurrence.Fresh) :
    occurrence.errors before = occurrence.reports before := by
  obtain ⟨scope, site⟩ := occurrence
  cases site with
  | use id =>
      simp only [Occurrence.errors, Occurrence.faults, Occurrence.symbols, clashes,
        inOrder_nil, List.append_nil, Occurrence.reports]
      cases visible before scope id.name <;> rfl
  | named binding type id =>
      simp only [Occurrence.errors, Occurrence.faults, Occurrence.symbols, voidErrors,
        Occurrence.reports, Occurrence.declarations, variableSymbol?]
      by_cases hvoid : type.type = .void
      · simp [hvoid, clashes, Declaration.isClashing, Declaration.errors, errorsAt,
          Fate.fault?]
      · rw [if_neg hvoid, if_neg hvoid, if_neg hvoid, Option.toList_some,
          clashes_offered]
        simp [isClashing_offered]
  | function signature id =>
      simp only [Occurrence.errors, Occurrence.faults, Occurrence.symbols,
        Occurrence.reports, Occurrence.declarations, clashes_offered]
      simp [isClashing_offered]
  | struct id fields =>
      have hname := (h id List.mem_cons_self).2
      simp only [Occurrence.errors, Occurrence.faults, Occurrence.symbols,
        Occurrence.reports, Occurrence.declarations, structFault?_of_unreserved hname]
      cases before.any (Occurrence.isStructNamed id.name) with
      | true =>
          simp [clashes, Declaration.isClashing, Declaration.errors, errorsAt,
            Fate.fault?, List.filter_map]
      | false =>
          have hclashes := clashes_fields (bindings before scope) [] fields
          rw [fieldSymbols, List.filterMap_nil, firsts, inOrder_nil, List.append_nil]
            at hclashes
          have hfaults : inOrder fieldErrors [] fields =
              ((fieldDeclarations (bindings before scope) [] fields).filter
                (!·.isClashing)).flatMap Declaration.errors := by
            rw [fieldDeclarations, filter_inOrder, flatMap_inOrder]
            exact inOrder_congr fun earlier field _ => fieldErrors_eq _ earlier field
          rw [if_neg Bool.false_ne_true, if_neg Bool.false_ne_true,
            if_neg (by simp), List.flatMap_append]
          exact congr (congrArg List.append hfaults) hclashes

/-- A name, and what is wrong with it. -/
abbrev Verdict := Ident × Option NameFault

def Verdict.errors (verdict : Verdict) : List NameError := errorsAt verdict.1 verdict.2

/-- What is wrong with the names at an occurrence, in the order of the names. -/
def Occurrence.verdicts (before : List Occurrence) (occurrence : Occurrence) :
    List Verdict :=
  match occurrence.site with
  | .use id =>
      [(id, if (visible before occurrence.scope id.name).isSome then none
        else some .undeclaredIdentifier)]
  | _ => (occurrence.declarations before).map fun declaration =>
      (declaration.id, declaration.fate.fault?)

theorem fieldDeclarations_ids (bound : List Symbol) (earlier fields : List Formal) :
    (fieldDeclarations bound earlier fields).map Declaration.id =
      fields.map Formal.id := by
  induction fields generalizing earlier with
  | nil => rfl
  | cons field rest ih => exact congrArg (field.id :: ·) (ih (earlier ++ [field]))

/-- The declarations at an occurrence are those of the names that it declares. -/
theorem Occurrence.declarations_ids (before : List Occurrence)
    (occurrence : Occurrence) :
    (occurrence.declarations before).map Declaration.id = occurrence.site.declaring := by
  obtain ⟨scope, site⟩ := occurrence
  cases site with
  | struct id fields =>
      simp only [Occurrence.declarations, Site.declaring]
      cases before.any (Occurrence.isStructNamed id.name) with
      | true =>
          rw [if_pos rfl, List.map_cons, List.map_map]
          rfl
      | false =>
          rw [if_neg Bool.false_ne_true, List.map_cons, fieldDeclarations_ids]
  | _ => rfl

theorem Occurrence.verdicts_ids (before : List Occurrence) (occurrence : Occurrence) :
    (occurrence.verdicts before).map Prod.fst = occurrence.site.ids := by
  obtain ⟨scope, site⟩ := occurrence
  cases site with
  | use id => rfl
  | _ =>
      rw [Occurrence.verdicts, List.map_map]
      exact Occurrence.declarations_ids before _

/-- The reports at an occurrence are the errors of its verdicts, in another order. -/
theorem Occurrence.reports_perm (before : List Occurrence) (occurrence : Occurrence) :
    (occurrence.reports before).Perm
      ((occurrence.verdicts before).flatMap Verdict.errors) := by
  obtain ⟨scope, site⟩ := occurrence
  cases site with
  | use id =>
      simp only [Occurrence.reports, Occurrence.verdicts, List.flatMap_singleton]
      cases visible before scope id.name <;> exact .refl _
  | _ =>
      rw [Occurrence.verdicts, List.flatMap_map]
      refine List.Perm.flatMap_right _ ?_
      exact List.perm_append_comm.trans (List.filter_append_perm _ _)

theorem Verdict.span_of_mem_errors {verdict : Verdict} {error : NameError}
    (h : error ∈ verdict.errors) : error.span = verdict.1.span := by
  obtain ⟨fault, _, rfl⟩ := List.mem_map.mp h
  rfl

theorem Verdict.errors_spans_sublist (verdicts : List Verdict) :
    ((verdicts.flatMap Verdict.errors).map NameError.span).Sublist
      (verdicts.map (·.1.span)) := by
  induction verdicts with
  | nil => exact List.nil_sublist _
  | cons verdict rest ih =>
      obtain ⟨id, fault⟩ := verdict
      cases fault with
      | none => exact ih.cons _
      | some fault => exact ih.cons_cons _

/-- Where the names of verdicts stand at different places, the errors at the name of a
verdict are those of the verdict. -/
theorem Verdict.filter_errors {verdicts : List Verdict}
    (h : (verdicts.map (·.1.span)).Nodup) {verdict : Verdict}
    (hverdict : verdict ∈ verdicts) :
    (verdicts.flatMap Verdict.errors).filter (·.span = verdict.1.span) =
      verdict.errors := by
  induction verdicts with
  | nil => exact absurd hverdict List.not_mem_nil
  | cons first rest ih =>
      rw [List.map_cons, List.nodup_cons] at h
      rw [List.flatMap_cons, List.filter_append]
      rcases List.mem_cons.mp hverdict with rfl | hrest
      · have hother : ∀ error ∈ rest.flatMap Verdict.errors,
            error.span ≠ verdict.1.span := by
          intro error herror hspan
          obtain ⟨other, hother, hmem⟩ := List.mem_flatMap.mp herror
          rw [Verdict.span_of_mem_errors hmem] at hspan
          exact h.1 (hspan ▸ List.mem_map_of_mem hother)
        rw [List.filter_eq_self.mpr fun error herror => by
            simpa using Verdict.span_of_mem_errors herror,
          List.filter_eq_nil_iff.mpr fun error herror => by
            simpa using hother error herror,
          List.append_nil]
      · have hfirst : first.1.span ≠ verdict.1.span := fun hspan =>
          h.1 (hspan ▸ List.mem_map_of_mem hrest)
        rw [ih h.2 hrest, List.filter_eq_nil_iff.mpr fun error herror => ?_,
          List.nil_append]
        rw [Verdict.span_of_mem_errors herror]
        simpa using hfirst

theorem Program.fresh_of_parse {source : String} {program : Program}
    (h : parseTokens (scan source).tokens = .ok program) :
    ∀ occurrence ∈ program.occurrences, occurrence.Fresh := by
  intro occurrence hoccurrence id hid
  have hname := program.names_sublist.subset (name_mem_namesOf hoccurrence hid)
  obtain ⟨hword, hunlinked⟩ := Program.names_of_parse h hname
  exact ⟨hunlinked, hword.plain.2⟩

/-- What is wrong with the names of a program, in their order. -/
def Program.verdicts (program : Program) : List Verdict :=
  inOrder Occurrence.verdicts [] program.occurrences

theorem namesOf_eq_map (occurrences : List Occurrence) :
    namesOf occurrences =
      (occurrences.flatMap fun occurrence => occurrence.site.ids).map .name := by
  rw [List.map_flatMap]
  rfl

/-- The names of the verdicts are those that a walk meets. -/
theorem Program.verdicts_ids (program : Program) :
    program.verdicts.map Prod.fst =
      program.occurrences.flatMap fun occurrence => occurrence.site.ids := by
  rw [Program.verdicts, map_inOrder]
  simp only [Occurrence.verdicts_ids]
  exact inOrder_const _ _ _

theorem Program.verdicts_ascend {source : String} {program : Program}
    (h : parseTokens (scan source).tokens = .ok program) :
    (program.verdicts.map (·.1)).Pairwise fun id other =>
      id.span.start.Before other.span.start := by
  have hascend := Program.names_ascend h
  rw [namesOf_eq_map, List.pairwise_map, ← Program.verdicts_ids] at hascend
  exact hascend

/-- The names of a parsed program stand at different places. -/
theorem Program.verdicts_spans_nodup {source : String} {program : Program}
    (h : parseTokens (scan source).tokens = .ok program) :
    (program.verdicts.map (·.1.span)).Nodup := by
  have hascend := List.pairwise_map.mp (Program.verdicts_ascend h)
  refine List.pairwise_map.mpr (hascend.imp fun hbefore hspan => ?_)
  exact hbefore.ne (congrArg Span.start hspan)

theorem Program.verdict_of_declaration {program : Program} {declaration : Declaration}
    (h : declaration ∈ program.declarations) :
    (declaration.id, declaration.fate.fault?) ∈ program.verdicts := by
  obtain ⟨front, ⟨scope, site⟩, back, hsplit, hmem⟩ := mem_inOrder_iff.mp h
  refine mem_inOrder_iff.mpr ⟨front, ⟨scope, site⟩, back, hsplit, ?_⟩
  cases site with
  | use id => exact absurd hmem List.not_mem_nil
  | _ => exact List.mem_map_of_mem hmem

/-- An error that is not about a use is that of one declaration. -/
theorem Occurrence.declaration_of_report {before : List Occurrence}
    {occurrence : Occurrence} {error : NameError}
    (h : error ∈ occurrence.reports before)
    (hfault : error.fault ≠ .undeclaredIdentifier) :
    ∃ declaration ∈ occurrence.declarations before, declaration.errors = [error] := by
  have hsingle : ∀ declaration : Declaration, error ∈ declaration.errors →
      declaration.errors = [error] := by
    rintro ⟨id, kind, fate⟩ herror
    cases fate <;> simp_all [Declaration.errors, errorsAt, Fate.fault?]
  obtain ⟨scope, site⟩ := occurrence
  cases site with
  | use id =>
      rw [Occurrence.reports] at h
      cases hvisible : visible before scope id.name with
      | some symbol => simp [hvisible] at h
      | none =>
          simp only [hvisible, Option.isSome_none, Bool.false_eq_true, if_false,
            List.mem_singleton] at h
          exact absurd (congrArg NameError.fault h) hfault
  | _ =>
      obtain ⟨declaration, hmem, herror⟩ := List.mem_flatMap.mp h
      refine ⟨declaration, ?_, hsingle declaration herror⟩
      rcases List.mem_append.mp hmem with hmem | hmem
      · exact (List.mem_filter.mp hmem).1
      · exact (List.mem_filter.mp hmem).1

/-- The declared names of a parsed program are linked, and its errors reported, as the
fates of the names say. -/
theorem Program.resolve_fates {source : String} {program : Program}
    (h : parseTokens (scan source).tokens = .ok program) :
    program.resolve.program.declaring = program.declarations.map Declaration.linked ∧
    program.resolve.errors = inOrder Occurrence.reports [] program.occurrences := by
  have hraw := Program.raw_of_parse h
  have hnamed : Named program.occurrences := fun occurrence hoccurrence id hid =>
    hraw.named id (List.mem_flatMap.mpr ⟨occurrence, hoccurrence, hid⟩)
  obtain ⟨hprogram, herrors, _⟩ := Program.resolve_walks hraw.plain hnamed
  have hfresh := Program.fresh_of_parse h
  constructor
  · rw [Program.declaring, hprogram, linked, flatMap_inOrder, Program.declarations,
      map_inOrder]
    refine inOrder_congr fun before occurrence hoccurrence => ?_
    rw [List.flatMap_singleton,
      Occurrence.declaring_linkedSite (hfresh occurrence hoccurrence)]
  · rw [herrors, errorsAfter]
    exact inOrder_congr fun before occurrence hoccurrence =>
      Occurrence.errors_eq_reports (hfresh occurrence hoccurrence)

theorem Program.errors_perm {source : String} {program : Program}
    (h : parseTokens (scan source).tokens = .ok program) :
    program.resolve.errors.Perm (program.verdicts.flatMap Verdict.errors) := by
  rw [(Program.resolve_fates h).2, Program.verdicts, flatMap_inOrder]
  exact inOrder_perm fun before occurrence _ => occurrence.reports_perm before

theorem Declaration.length_errors_le (declaration : Declaration) :
    declaration.errors.length ≤ 1 := by
  obtain ⟨id, kind, fate⟩ := declaration
  cases fate <;> simp [Declaration.errors, errorsAt, Fate.fault?]

theorem perm_eq_of_length_le_one {α : Type} {items others : List α}
    (h : items.Perm others) (hlength : others.length ≤ 1) : items = others := by
  match others with
  | [] => exact h.eq_nil
  | [other] => exact List.perm_singleton.mp h

/-- What becomes of declarations is exact and complete. Every declared name of a parsed
program is linked as its fate tells and gets the errors of its fate, all other errors
are about uses, and none is about a name that another one is about. The errors come in
the order of the names, which is that of the text; only the fields that clash with the
scope around their struct come behind all other errors of the struct. -/
theorem Program.resolve_declarations {source : String} {program : Program}
    (h : parseTokens (scan source).tokens = .ok program) :
    program.declarations.map Declaration.id = program.declaring ∧
    program.resolve.program.declaring = program.declarations.map Declaration.linked ∧
    (∀ declaration ∈ program.declarations,
      program.resolve.errors.filter (·.span = declaration.id.span) =
        declaration.errors) ∧
    (∀ error ∈ program.resolve.errors, error.fault ≠ .undeclaredIdentifier →
      ∃ declaration ∈ program.declarations, declaration.errors = [error]) ∧
    (program.resolve.errors.map NameError.span).Nodup ∧
    program.resolve.errors = inOrder Occurrence.reports [] program.occurrences ∧
    (program.occurrences.flatMap fun occurrence => occurrence.site.ids).Pairwise
      fun id other => id.span.start.Before other.span.start := by
  have hnodup := Program.verdicts_spans_nodup h
  have hperm := Program.errors_perm h
  obtain ⟨hdeclaring, herrors⟩ := Program.resolve_fates h
  refine ⟨?_, hdeclaring, ?_, ?_, ?_, herrors, ?_⟩
  · rw [Program.declarations, map_inOrder]
    simp only [Occurrence.declarations_ids]
    exact inOrder_const _ _ _
  · intro declaration hdeclaration
    have hverdict := Program.verdict_of_declaration hdeclaration
    have hat := hperm.filter (·.span = declaration.id.span)
    rw [Verdict.filter_errors hnodup hverdict] at hat
    exact perm_eq_of_length_le_one hat declaration.length_errors_le
  · intro error herror hfault
    rw [herrors] at herror
    obtain ⟨front, occurrence, back, hsplit, hreport⟩ := mem_inOrder_iff.mp herror
    obtain ⟨declaration, hmem, hsingle⟩ :=
      Occurrence.declaration_of_report hreport hfault
    exact ⟨declaration, mem_inOrder_iff.mpr ⟨front, occurrence, back, hsplit, hmem⟩,
      hsingle⟩
  · refine (hperm.map NameError.span).nodup_iff.mpr ?_
    exact hnodup.sublist (Verdict.errors_spans_sublist _)
  · rw [← Program.verdicts_ids]
    exact Program.verdicts_ascend h

/-- A program where every fate occurs. -/
theorem Program.resolve_declarations_struct : ∃ program,
    parseTokens (scan ("int p; struct A { int p; void y; int q; int q; }; " ++
      "struct A { int r; }; int p() { }")).tokens = .ok program ∧
    program.declarations.map (fun declaration => (declaration.id.name, declaration.fate)) =
      [("p", .declared), ("A", .declared), ("p", .clashing), ("y", .void),
        ("q", .declared), ("q", .repeated), ("A", .rejected), ("r", .ignored),
        ("p", .taken)] ∧
    (program.resolve.errors.map fun error => (error.fault, error.span.start.column)) =
      [(.voidVariable, 31), (.duplicateDeclaration, 45), (.duplicateDeclaration, 23),
        (.duplicateDeclaration, 58), (.duplicateDeclaration, 76)] := by
  let name (text : String) (column : Nat) : Ident :=
    ⟨text, Span.ofLength ⟨1, column⟩ 1, none⟩
  let program : Program := ⟨[.var .int (name "p" 5),
    .struct (name "A" 15) [.var .int (name "p" 23), .var .void (name "y" 31),
      .var .int (name "q" 38), .var .int (name "q" 45)],
    .struct (name "A" 58) [.var .int (name "r" 66)],
    .func .int (name "p" 76) [] (.mk [] [])]⟩
  have hparse : parseTokens (scan ("int p; struct A { int p; void y; int q; int q; }; " ++
      "struct A { int r; }; int p() { }")).tokens = .ok program := by cbv
  obtain ⟨_, _, _, _, _, herrors, _⟩ := Program.resolve_declarations hparse
  refine ⟨program, hparse, by decide, ?_⟩
  rw [herrors]
  decide

end MiniLang

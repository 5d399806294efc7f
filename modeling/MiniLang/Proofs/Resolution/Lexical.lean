/-
Lexical scoping. What a name stands for and what is wrong with it is told by the
occurrences in front of it: the scopes it stands in and what they bind by then.
-/
import MiniLang.Proofs.Resolution.Occurrence

namespace MiniLang

variable {α β : Type}

/-- What the items of a list give one behind the other, where each is seen with the
items in front of it, behind those of `before`. -/
def inOrder (give : List α → α → List β) (before : List α) : List α → List β
  | [] => []
  | item :: rest => give before item ++ inOrder give (before ++ [item]) rest

@[simp] theorem inOrder_nil (give : List α → α → List β) (before : List α) :
    inOrder give before [] = [] := rfl

@[simp] theorem inOrder_singleton (give : List α → α → List β) (before : List α)
    (item : α) : inOrder give before [item] = give before item :=
  List.append_nil _

theorem inOrder_append (give : List α → α → List β) (before front back : List α) :
    inOrder give before (front ++ back) =
      inOrder give before front ++ inOrder give (before ++ front) back := by
  induction front generalizing before with
  | nil => simp
  | cons item rest ih => simp [inOrder, ih]

/-- What depends on the items alone is given by each of them. -/
theorem inOrder_const (give : α → List β) (before items : List α) :
    inOrder (fun _ item => give item) before items = items.flatMap give := by
  induction items generalizing before with
  | nil => rfl
  | cons item rest ih => rw [inOrder, ih, List.flatMap_cons]

/-- What an item gives is among what the list gives, and nothing else is. -/
theorem mem_inOrder_iff {give : List α → α → List β} {before items : List α}
    {answer : β} :
    answer ∈ inOrder give before items ↔ ∃ front item back,
      items = front ++ item :: back ∧ answer ∈ give (before ++ front) item := by
  induction items generalizing before with
  | nil => simp
  | cons first rest ih =>
      rw [inOrder, List.mem_append, ih]
      constructor
      · rintro (hfirst | ⟨front, item, back, rfl, hanswer⟩)
        · exact ⟨[], first, rest, rfl, by rwa [List.append_nil]⟩
        · rw [List.append_assoc, List.singleton_append] at hanswer
          exact ⟨first :: front, item, back, rfl, hanswer⟩
      · rintro ⟨front, item, back, hsplit, hanswer⟩
        cases front with
        | nil =>
            obtain ⟨rfl, rfl⟩ := List.cons.inj hsplit
            rw [List.append_nil] at hanswer
            exact .inl hanswer
        | cons other front =>
            obtain ⟨rfl, rfl⟩ := List.cons.inj hsplit
            refine .inr ⟨front, item, back, rfl, ?_⟩
            rwa [List.append_assoc, List.singleton_append]

theorem inOrder_congr {give give' : List α → α → List β} {before items : List α}
    (h : ∀ earlier, ∀ item ∈ items, give earlier item = give' earlier item) :
    inOrder give before items = inOrder give' before items := by
  induction items generalizing before with
  | nil => rfl
  | cons item rest ih =>
      rw [inOrder, inOrder, h before item (by simp),
        ih fun earlier other hother => h earlier other (by simp [hother])]

theorem inOrder_perm {give give' : List α → α → List β} {before items : List α}
    (h : ∀ earlier, ∀ item ∈ items, (give earlier item).Perm (give' earlier item)) :
    (inOrder give before items).Perm (inOrder give' before items) := by
  induction items generalizing before with
  | nil => exact .nil
  | cons item rest ih =>
      exact (h before item (by simp)).append
        (ih fun earlier other hother => h earlier other (by simp [hother]))

theorem flatMap_inOrder {γ : Type} (give : List α → α → List β) (spread : β → List γ)
    (before items : List α) :
    (inOrder give before items).flatMap spread =
      inOrder (fun earlier item => (give earlier item).flatMap spread) before items := by
  induction items generalizing before with
  | nil => rfl
  | cons item rest ih => rw [inOrder, List.flatMap_append, ih, inOrder]

theorem filter_inOrder (keep : β → Bool) (give : List α → α → List β)
    (before items : List α) :
    (inOrder give before items).filter keep =
      inOrder (fun earlier item => (give earlier item).filter keep) before items := by
  induction items generalizing before with
  | nil => rfl
  | cons item rest ih => rw [inOrder, List.filter_append, ih, inOrder]

theorem map_inOrder {γ : Type} (change : β → γ) (give : List α → α → List β)
    (before items : List α) :
    (inOrder give before items).map change =
      inOrder (fun earlier item => (give earlier item).map change) before items := by
  induction items generalizing before with
  | nil => rfl
  | cons item rest ih => rw [inOrder, List.map_append, ih, inOrder]

/-- Whether a symbol has a name. -/
def declares (name : String) (symbol : Symbol) : Bool := symbol.name == name

/-- The symbols whose name no symbol in front of them has. -/
def firsts (taken symbols : List Symbol) : List Symbol :=
  inOrder (fun earlier symbol =>
    if earlier.any (declares symbol.name) then [] else [symbol]) taken symbols

/-- The errors of symbols whose name a symbol in front of them has. -/
def clashes (taken symbols : List Symbol) : List NameError :=
  inOrder (fun earlier symbol =>
    if earlier.any (declares symbol.name) then
      [⟨.duplicateDeclaration, symbol.name, symbol.span⟩]
    else []) taken symbols

/-- The symbol of a name with a type, unless the type is `void`. -/
def variableSymbol? (binding : Binding) (type : TypeNode) (id : Ident) :
    Option Symbol :=
  if type.type = .void then none
  else some ⟨id.name, binding.kind type.type, id.span⟩

/-- The symbol of a field, unless its type is `void`. -/
def Formal.fieldSymbol? (field : Formal) : Option Symbol :=
  variableSymbol? .variable field.type field.id

def fieldSymbols (fields : List Formal) : List Symbol :=
  fields.filterMap Formal.fieldSymbol?

def voidErrors (type : TypeNode) (id : Ident) : List NameError :=
  if type.type = .void then [⟨.voidVariable, id.name, id.span⟩] else []

/-- The errors of a field among the fields of its struct. -/
def fieldErrors (earlier : List Formal) (field : Formal) : List NameError :=
  voidErrors field.type field.id
    ++ clashes (fieldSymbols earlier) field.fieldSymbol?.toList

/-- A field with the symbol that its struct has for it, if it is the first one of its
name. -/
def linkField (earlier : List Formal) (field : Formal) : Formal :=
  ⟨field.type, field.id.linkTo
    (firsts (fieldSymbols earlier) field.fieldSymbol?.toList).head?⟩

def structSymbol (id : Ident) : Symbol := ⟨id.name, .struct, id.span⟩

def Occurrence.isStructNamed (name : String) (occurrence : Occurrence) : Bool :=
  match occurrence.site with
  | .struct id _ => id.name == name
  | _ => false

/-- Why a struct is rejected: its name is reserved, or a struct in front of it has it. -/
def structFault? (before : List Occurrence) (name : String) : Option NameFault :=
  if isReservedTypeName name then some .invalidStructName
  else if before.any (Occurrence.isStructNamed name) then some .duplicateDeclaration
  else none

/-- The symbols that an occurrence offers to its scope: that of a name or a function,
and those of the fields of a struct that is not rejected. -/
def Occurrence.symbols (before : List Occurrence) (occurrence : Occurrence) :
    List Symbol :=
  match occurrence.site with
  | .named binding type id => (variableSymbol? binding type id).toList
  | .function signature id => [⟨id.name, .function signature, id.span⟩]
  | .struct id fields =>
      if (structFault? before id.name).isSome then []
      else firsts [] (fieldSymbols fields)
  | .use _ => []

/-- What the occurrences offer to a scope, in their order. -/
def bindings (occurrences : List Occurrence) (scope : ScopePath) : List Symbol :=
  inOrder (fun before occurrence =>
    if occurrence.scope = scope then occurrence.symbols before else []) [] occurrences

/-- What a scope accepts: the first binding of every name. -/
def accepted (occurrences : List Occurrence) (scope : ScopePath) : List Symbol :=
  firsts [] (bindings occurrences scope)

/-- What a name stands for behind the given occurrences: the innermost scope that has
accepted a binding of it decides. -/
def visible (occurrences : List Occurrence) (scope : ScopePath) (name : String) :
    Option Symbol :=
  (scope :: enclosing scope).findSome? fun around =>
    (accepted occurrences around).find? (declares name)

/-- What is wrong at an occurrence in itself and within its struct. -/
def Occurrence.faults (before : List Occurrence) (occurrence : Occurrence) :
    List NameError :=
  match occurrence.site with
  | .named _ type id => voidErrors type id
  | .function _ _ => []
  | .struct id fields =>
      match structFault? before id.name with
      | some fault => [⟨fault, id.name, id.span⟩]
      | none => inOrder fieldErrors [] fields
  | .use id =>
      match visible before occurrence.scope id.name with
      | some _ => []
      | none => [⟨.undeclaredIdentifier, id.name, id.span⟩]

/-- The errors of an occurrence: behind its own ones, those of the symbols that it
offers to its scope in vain. -/
def Occurrence.errors (before : List Occurrence) (occurrence : Occurrence) :
    List NameError :=
  occurrence.faults before
    ++ clashes (bindings before occurrence.scope) (occurrence.symbols before)

/-- A place with the symbols that its names stand for. -/
def Occurrence.linkedSite (before : List Occurrence) (occurrence : Occurrence) : Site :=
  let own := (firsts (bindings before occurrence.scope)
    (occurrence.symbols before)).head?
  match occurrence.site with
  | .named binding type id => .named binding type (id.linkTo own)
  | .function signature id => .function signature (id.linkTo own)
  | .struct id fields =>
      if (structFault? before id.name).isSome then .struct id fields
      else .struct (id.linkTo (some (structSymbol id)))
        (inOrder (fun earlier field => [linkField earlier field]) [] fields)
  | .use id => .use (id.linkTo (visible before occurrence.scope id.name))

/-- The occurrences with the symbols that their names stand for. -/
def linked (before occurrences : List Occurrence) : List Occurrence :=
  inOrder (fun earlier occurrence =>
    [⟨occurrence.scope, occurrence.linkedSite earlier⟩]) before occurrences

/-- The declarations of a scope that has accepted what it could of some symbols. -/
def frameOf (symbols : List Symbol) : Frame :=
  ((firsts [] symbols).map fun symbol => (symbol.name, symbol)).reverse

/-- The struct type that an occurrence registers. -/
def Occurrence.structs (before : List Occurrence) (occurrence : Occurrence) :
    List StructInfo :=
  match occurrence.site with
  | .struct id fields =>
      if (structFault? before id.name).isSome then []
      else [⟨structSymbol id, ⟨[frameOf (fieldSymbols fields)]⟩⟩]
  | _ => []

theorem linked_append (before front back : List Occurrence) :
    linked before (front ++ back) = linked before front ++ linked (before ++ front) back :=
  inOrder_append _ before front back

theorem bindings_append_singleton (before : List Occurrence) (occurrence : Occurrence)
    (scope : ScopePath) : bindings (before ++ [occurrence]) scope =
      bindings before scope ++
        if occurrence.scope = scope then occurrence.symbols before else [] := by
  rw [bindings, inOrder_append, ← bindings, List.nil_append, inOrder_singleton]

end MiniLang

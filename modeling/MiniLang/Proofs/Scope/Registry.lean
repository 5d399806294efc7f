/-
The struct registry by the history of its calls. A struct type is what its first
registration made it, and its fields have gone through the operations that were addressed
to it since then. Main statement: the registry answers by its history, and what is
addressed to one struct type makes no difference to another one.
-/
import MiniLang.Proofs.Resolution.Ordering
import MiniLang.Proofs.Scope.History
import MiniLang.Proofs.Scope.Structs

namespace MiniLang

/-- A call that may change a struct registry: a registration, or an operation of the field
table of the struct type that has a name. -/
inductive RegistryCall where
  | register (info : StructInfo)
  | edit (name : String) (call : TableCall)
deriving Repr, DecidableEq

/-- What such a call is answered. Where there is no struct type of a name, nothing is done
to its fields. -/
inductive RegistryAnswer where
  | registered
  | refused (reason : TableError)
  | edited (answer : TableAnswer)
  | absent
deriving Repr, DecidableEq

/-- The answer to a call, and the registry behind it. -/
def StructRegistry.perform (registry : StructRegistry) :
    RegistryCall → RegistryAnswer × StructRegistry
  | .register info =>
      match registry.register info with
      | .ok after => (.registered, after)
      | .error reason => (.refused reason, registry)
  | .edit name call =>
      match registry.get? name with
      | none => (.absent, registry)
      | some info =>
          let (answer, fields) := info.fields.perform call
          (.edited answer, registry.setFields name fields)

/-- The registry behind calls that start with an empty one. -/
def structsAfter (calls : List RegistryCall) : StructRegistry :=
  calls.foldl (fun registry call => (registry.perform call).2) .empty

/-- What a call is answered behind other calls. -/
def registryAnswer (calls : List RegistryCall) (call : RegistryCall) : RegistryAnswer :=
  ((structsAfter calls).perform call).1

/-- Whether a struct type was registered, and which calls came since then. -/
def RegisteredSince (calls : List RegistryCall) (info : StructInfo)
    (since : List RegistryCall) : Prop :=
  ∃ front, calls = front ++ .register info :: since ∧
    registryAnswer front (.register info) = .registered

/-- Whether a struct type of a name was registered. -/
def Registered (calls : List RegistryCall) (name : String) : Prop :=
  ∃ info since, RegisteredSince calls info since ∧ info.symbol.name = name

/-- The operation that is addressed to the fields of a struct type, if any is. -/
def RegistryCall.editOf? (name : String) : RegistryCall → Option TableCall
  | .edit other call => if other = name then some call else none
  | .register _ => none

/-- Whether a call may matter to a struct type: all registrations may, and of the other
calls those that are addressed to it. -/
def RegistryCall.concerns (name : String) : RegistryCall → Bool
  | .edit other _ => other == name
  | .register _ => true

/-- A struct type whose fields went through the operations addressed to it. -/
def StructInfo.editedBy (info : StructInfo) (calls : List RegistryCall) : StructInfo :=
  ⟨info.symbol, (calls.filterMap (RegistryCall.editOf? info.symbol.name)).foldl
    (fun table call => (table.perform call).2) info.fields⟩

/-- Whether a registry answers by its history, behind some calls. -/
structure StructsByHistory (calls : List RegistryCall) : Prop where
  register_absentName : ∀ info,
    registryAnswer calls (.register info) = .refused .absentName ↔ info.symbol.name = ""
  register_duplicateName : ∀ info name,
    registryAnswer calls (.register info) = .refused (.duplicateName name) ↔
      info.symbol.name ≠ "" ∧ name = info.symbol.name ∧ Registered calls info.symbol.name
  register_done : ∀ info, registryAnswer calls (.register info) = .registered ↔
    info.symbol.name ≠ "" ∧ ¬ Registered calls info.symbol.name
  refused : ∀ info reason, registryAnswer calls (.register info) = .refused reason →
    ∀ more, structsAfter (calls ++ .register info :: more) = structsAfter (calls ++ more)
  names_ascend : (structsAfter calls).names.Pairwise (· < ·)
  mem_names : ∀ name, name ∈ (structsAfter calls).names ↔ Registered calls name
  size : (structsAfter calls).size = (structsAfter calls).names.length
  isEmpty : (structsAfter calls).isEmpty = true ↔ (structsAfter calls).names = []
  contains : ∀ name,
    (structsAfter calls).contains name = true ↔ name ∈ (structsAfter calls).names
  get?_isSome : ∀ name,
    ((structsAfter calls).get? name).isSome = true ↔ name ∈ (structsAfter calls).names
  lookup_isSome : ∀ name,
    ((structsAfter calls).lookup name).isSome = true ↔ name ∈ (structsAfter calls).names
  get?_found : ∀ name found, (structsAfter calls).get? name = some found ↔
    ∃ front first since, calls = front ++ .register first :: since ∧
      registryAnswer front (.register first) = .registered ∧
      first.symbol.name = name ∧ ¬ Registered front name ∧ found = first.editedBy since
  lookup_found : ∀ name symbol, (structsAfter calls).lookup name = some symbol ↔
    ∃ front first since, calls = front ++ .register first :: since ∧
      registryAnswer front (.register first) = .registered ∧
      first.symbol.name = name ∧ ¬ Registered front name ∧ symbol = first.symbol
  edit_absent : ∀ name call, registryAnswer calls (.edit name call) = .absent ↔
    name ∉ (structsAfter calls).names
  edit_done : ∀ name call answer,
    registryAnswer calls (.edit name call) = .edited answer ↔
      ∃ info, (structsAfter calls).get? name = some info ∧
        answer = (info.fields.perform call).1
  apart : ∀ name, (structsAfter calls).get? name =
    (structsAfter (calls.filter (RegistryCall.concerns name))).get? name

/-- What a registration does: it is refused for the first reason that holds, or the struct
type is added. -/
theorem StructRegistry.perform_register (registry : StructRegistry) (info : StructInfo) :
    info.symbol.name = "" ∧
        registry.perform (.register info) = (.refused .absentName, registry) ∨
      info.symbol.name ≠ "" ∧ registry.contains info.symbol.name = true ∧
        registry.perform (.register info) =
          (.refused (.duplicateName info.symbol.name), registry) ∨
      info.symbol.name ≠ "" ∧ registry.contains info.symbol.name = false ∧
        registry.perform (.register info) = (.registered, ⟨registry.entries ++ [info]⟩) := by
  simp only [StructRegistry.perform, StructRegistry.register]
  by_cases hname : info.symbol.name = ""
  · rw [if_pos hname]
    exact .inl ⟨hname, rfl⟩
  · rw [if_neg hname]
    cases hcontains : registry.contains info.symbol.name with
    | true => exact .inr (.inl ⟨hname, rfl, rfl⟩)
    | false => exact .inr (.inr ⟨hname, rfl, rfl⟩)

/-- What an operation on the fields of a struct type does. -/
theorem StructRegistry.perform_edit (registry : StructRegistry) (name : String)
    (call : TableCall) :
    registry.get? name = none ∧ registry.perform (.edit name call) = (.absent, registry) ∨
      ∃ info, registry.get? name = some info ∧
        registry.perform (.edit name call) =
          (.edited (info.fields.perform call).1,
            registry.setFields name (info.fields.perform call).2) := by
  simp only [StructRegistry.perform]
  cases registry.get? name with
  | none => exact .inl ⟨rfl, rfl⟩
  | some info => exact .inr ⟨info, rfl, rfl⟩

theorem StructRegistry.registered_iff (registry : StructRegistry) (info : StructInfo) :
    (registry.perform (.register info)).1 = .registered ↔
      info.symbol.name ≠ "" ∧ registry.contains info.symbol.name = false := by
  rcases registry.perform_register info with
    ⟨hname, h⟩ | ⟨hname, hcontains, h⟩ | ⟨hname, hcontains, h⟩
  · simp [h, hname]
  · simp [h, hcontains]
  · simp [h, hname, hcontains]

/-- Registries with the same names answer registrations alike. -/
theorem StructRegistry.registered_congr {registry other : StructRegistry}
    (h : ∀ name, registry.contains name = other.contains name) (call : RegistryCall) :
    (registry.perform call).1 = .registered ↔ (other.perform call).1 = .registered := by
  cases call with
  | register info =>
      rw [StructRegistry.registered_iff, StructRegistry.registered_iff, h]
  | edit name call =>
      rcases registry.perform_edit name call with ⟨_, hleft⟩ | ⟨_, _, hleft⟩ <;>
        rcases other.perform_edit name call with ⟨_, hright⟩ | ⟨_, _, hright⟩ <;>
          simp [hleft, hright]

theorem StructInfo.editedBy_append (info : StructInfo) (front back : List RegistryCall) :
    info.editedBy (front ++ back) = (info.editedBy front).editedBy back := by
  simp only [StructInfo.editedBy, List.filterMap_append, List.foldl_append]

theorem StructInfo.editedBy_register (info other : StructInfo) :
    info.editedBy [.register other] = info := rfl

/-- An operation is done on the fields of the struct type that it is addressed to, and not
on those of another one. -/
theorem StructInfo.editedBy_edit (info : StructInfo) (name : String) (call : TableCall) :
    info.editedBy [.edit name call] =
      if info.symbol.name = name then ⟨info.symbol, (info.fields.perform call).2⟩
      else info := by
  by_cases hname : info.symbol.name = name
  · simp [StructInfo.editedBy, RegistryCall.editOf?, hname]
  · simp [StructInfo.editedBy, RegistryCall.editOf?, hname, Ne.symm hname]

/-- The names of a registry behind a call. -/
theorem StructRegistry.contains_perform (registry : StructRegistry) (call : RegistryCall)
    (name : String) :
    (registry.perform call).2.contains name = true ↔
      registry.contains name = true ∨ ∃ info, call = .register info ∧
        info.symbol.name = name ∧ (registry.perform call).1 = .registered := by
  cases call with
  | register info =>
      rcases registry.perform_register info with ⟨_, h⟩ | ⟨_, _, h⟩ | ⟨_, _, h⟩
      · simp [h]
      · simp [h]
      · simp [h, StructRegistry.contains_append]
  | edit other call =>
      rcases registry.perform_edit other call with ⟨_, h⟩ | ⟨info, _, h⟩
      · simp [h]
      · simp [h, StructRegistry.contains_setFields]

/-- A struct type behind a registration: one that was there before, or the one that was
registered. -/
theorem StructRegistry.get?_perform_register (registry : StructRegistry)
    (info : StructInfo) (name : String) (found : StructInfo) :
    (registry.perform (.register info)).2.get? name = some found ↔
      registry.get? name = some found ∨ info = found ∧ found.symbol.name = name ∧
        (registry.perform (.register info)).1 = .registered := by
  rcases registry.perform_register info with ⟨_, h⟩ | ⟨_, _, h⟩ | ⟨_, hnew, h⟩
  · simp [h]
  · simp [h]
  · have hnone : registry.get? info.symbol.name = none := by
      rwa [StructRegistry.contains_eq_isSome, Option.isSome_eq_false_iff,
        Option.isNone_iff_eq_none] at hnew
    rw [h, StructRegistry.get?_append, Option.or_eq_some_iff, Option.ite_none_right_eq_some]
    simp only [and_true, Option.some.injEq]
    constructor
    · rintro (hold | ⟨_, rfl, rfl⟩)
      · exact .inl hold
      · exact .inr ⟨rfl, rfl⟩
    · rintro (hold | ⟨rfl, rfl⟩)
      · exact .inl hold
      · exact .inr ⟨hnone, rfl, rfl⟩

/-- A struct type behind an operation on fields: one that was there before, and that went
through the operation if that is addressed to it. -/
theorem StructRegistry.get?_perform_edit (registry : StructRegistry) (other : String)
    (call : TableCall) (name : String) :
    (registry.perform (.edit other call)).2.get? name =
      (registry.get? name).map (·.editedBy [.edit other call]) := by
  rcases registry.perform_edit other call with ⟨hnone, h⟩ | ⟨target, htarget, h⟩
  · rw [h]
    cases hinfo : registry.get? name with
    | none => rfl
    | some info =>
        have hother : info.symbol.name ≠ other := by
          rw [StructRegistry.name_of_get? hinfo]
          rintro rfl
          rw [hnone] at hinfo
          cases hinfo
        rw [Option.map_some, StructInfo.editedBy_edit, if_neg hother]
  · rw [h, StructRegistry.get?_setFields]
    apply Option.map_congr
    intro info hinfo
    rw [StructInfo.editedBy_edit, StructRegistry.name_of_get? hinfo]
    by_cases hname : name = other
    · subst hname
      obtain rfl : target = info := Option.some.inj (htarget.symm.trans hinfo)
      rfl
    · rw [if_neg hname, if_neg hname]

/-- A struct type behind a call: one that was there before, behind the operation if that
is addressed to it, or the one that the call registered. -/
theorem StructRegistry.get?_perform (registry : StructRegistry) (call : RegistryCall)
    (name : String) (found : StructInfo) :
    (registry.perform call).2.get? name = some found ↔
      (∃ info, registry.get? name = some info ∧ info.editedBy [call] = found) ∨
        call = .register found ∧ found.symbol.name = name ∧
          (registry.perform call).1 = .registered := by
  cases call with
  | register info =>
      simp only [StructRegistry.get?_perform_register, StructInfo.editedBy_register,
        exists_eq_right, RegistryCall.register.injEq]
  | edit other call =>
      rw [StructRegistry.get?_perform_edit, Option.map_eq_some_iff, or_iff_left]
      exact nofun

/-- A call keeps the names of a registry apart. -/
theorem StructRegistry.distinct_perform {registry : StructRegistry}
    (h : (registry.entries.map (·.symbol.name)).Nodup) (call : RegistryCall) :
    ((registry.perform call).2.entries.map (·.symbol.name)).Nodup := by
  cases call with
  | register info =>
      rcases registry.perform_register info with ⟨_, hresult⟩ | ⟨_, _, hresult⟩ |
        ⟨_, hnew, hresult⟩
      · rwa [hresult]
      · rwa [hresult]
      · rw [hresult, List.map_append, List.map_singleton]
        apply h.append (List.nodup_singleton _)
        rw [List.disjoint_singleton, List.mem_map]
        rintro ⟨other, hother, hname⟩
        rw [StructRegistry.contains, List.any_eq_false] at hnew
        exact hnew other hother (beq_iff_eq.mpr hname)
  | edit name call =>
      rcases registry.perform_edit name call with ⟨_, hresult⟩ | ⟨info, _, hresult⟩
      · rwa [hresult]
      · rw [hresult, StructRegistry.setFields, List.map_map]
        have hnames : ((fun info : StructInfo => info.symbol.name) ∘ fun other =>
            if other.symbol.name = name then ⟨other.symbol, (info.fields.perform call).2⟩
            else other) = fun info => info.symbol.name := by
          funext other
          simp only [Function.comp]
          split <;> rfl
        rwa [hnames]

section History

variable {calls : List RegistryCall} {call : RegistryCall} {info : StructInfo}
  {since : List RegistryCall} {name : String}

theorem structsAfter_append_singleton (calls : List RegistryCall) (call : RegistryCall) :
    structsAfter (calls ++ [call]) = ((structsAfter calls).perform call).2 := by
  rw [structsAfter, List.foldl_append]
  rfl

/-- A registration came before the last call, or it is the last call. -/
theorem registeredSince_append_singleton :
    RegisteredSince (calls ++ [call]) info since ↔
      (∃ earlier, since = earlier ++ [call] ∧ RegisteredSince calls info earlier) ∨
        since = [] ∧ call = .register info ∧ registryAnswer calls call = .registered := by
  constructor
  · rintro ⟨front, hcalls, hdone⟩
    rcases List.eq_nil_or_concat since with rfl | ⟨earlier, last, rfl⟩
    · obtain ⟨rfl, hcall⟩ := List.append_inj' hcalls rfl
      obtain rfl : call = .register info := by simpa using hcall
      exact .inr ⟨rfl, rfl, hdone⟩
    · rw [List.concat_eq_append, ← List.cons_append, ← List.append_assoc] at hcalls
      obtain ⟨rfl, hlast⟩ := List.append_inj' hcalls rfl
      obtain rfl : call = last := by simpa using hlast
      exact .inl ⟨earlier, List.concat_eq_append, front, rfl, hdone⟩
  · rintro (⟨earlier, rfl, front, rfl, hdone⟩ | ⟨rfl, rfl, hdone⟩)
    · exact ⟨front, by simp, hdone⟩
    · exact ⟨calls, rfl, hdone⟩

/-- What is found under a name was registered under it, and went through the operations
that came since then. -/
theorem get?_structsAfter (calls : List RegistryCall) (name : String)
    (found : StructInfo) :
    (structsAfter calls).get? name = some found ↔
      ∃ info since, RegisteredSince calls info since ∧ info.symbol.name = name ∧
        info.editedBy since = found := by
  induction calls using List.reverseRecOn generalizing found with
  | nil =>
      constructor
      · exact nofun
      · rintro ⟨info, since, ⟨front, hcalls, _⟩, _⟩
        exact absurd hcalls.symm (by simp)
  | append_singleton calls call ih =>
      rw [structsAfter_append_singleton, StructRegistry.get?_perform]
      constructor
      · rintro (⟨old, hold, rfl⟩ | ⟨rfl, rfl, hdone⟩)
        · obtain ⟨info, earlier, hsince, hname, rfl⟩ := (ih old).mp hold
          refine ⟨info, earlier ++ [call], ?_, hname, info.editedBy_append _ _⟩
          exact registeredSince_append_singleton.mpr (.inl ⟨earlier, rfl, hsince⟩)
        · refine ⟨found, [], ?_, rfl, rfl⟩
          exact registeredSince_append_singleton.mpr (.inr ⟨rfl, rfl, hdone⟩)
      · rintro ⟨info, since, hsince, hname, rfl⟩
        rcases registeredSince_append_singleton.mp hsince with
          ⟨earlier, rfl, hearlier⟩ | ⟨rfl, rfl, hdone⟩
        · left
          exact ⟨_, (ih _).mpr ⟨info, earlier, hearlier, hname, rfl⟩,
            (info.editedBy_append _ _).symm⟩
        · exact .inr ⟨rfl, hname, hdone⟩

/-- The names of a registry are those that were registered. -/
theorem contains_structsAfter :
    (structsAfter calls).contains name = true ↔ Registered calls name := by
  rw [StructRegistry.contains_eq_isSome, Option.isSome_iff_exists]
  constructor
  · rintro ⟨found, hfound⟩
    obtain ⟨info, since, hsince, hname, _⟩ := (get?_structsAfter calls name found).mp hfound
    exact ⟨info, since, hsince, hname⟩
  · rintro ⟨info, since, hsince, hname⟩
    exact ⟨_, (get?_structsAfter calls name _).mpr ⟨info, since, hsince, hname, rfl⟩⟩

theorem structsAfter_distinct (calls : List RegistryCall) :
    ((structsAfter calls).entries.map (·.symbol.name)).Nodup := by
  induction calls using List.reverseRecOn with
  | nil => exact List.nodup_nil
  | append_singleton calls call ih =>
      rw [structsAfter_append_singleton]
      exact StructRegistry.distinct_perform ih call

/-- What a registration is answered: the first refusal that has a reason, or none. -/
theorem registryAnswer_register (calls : List RegistryCall) (info : StructInfo) :
    info.symbol.name = "" ∧
        registryAnswer calls (.register info) = .refused .absentName ∨
      info.symbol.name ≠ "" ∧ Registered calls info.symbol.name ∧
        registryAnswer calls (.register info) =
          .refused (.duplicateName info.symbol.name) ∨
      info.symbol.name ≠ "" ∧ ¬ Registered calls info.symbol.name ∧
        registryAnswer calls (.register info) = .registered := by
  rw [← contains_structsAfter, registryAnswer]
  rcases (structsAfter calls).perform_register info with
    ⟨hname, h⟩ | ⟨hname, hcontains, h⟩ | ⟨hname, hcontains, h⟩
  · exact .inl ⟨hname, by rw [h]⟩
  · exact .inr (.inl ⟨hname, hcontains, by rw [h]⟩)
  · exact .inr (.inr ⟨hname, by simp [hcontains], by rw [h]⟩)

/-- A registration is done for the first struct type of a name only. -/
theorem RegisteredSince.exists_first (h : RegisteredSince calls info since) :
    ∃ front, calls = front ++ .register info :: since ∧
      registryAnswer front (.register info) = .registered ∧
      ¬ Registered front info.symbol.name := by
  obtain ⟨front, hcalls, hdone⟩ := h
  refine ⟨front, hcalls, hdone, ?_⟩
  rcases registryAnswer_register front info with ⟨_, h⟩ | ⟨_, _, h⟩ | ⟨_, hfirst, _⟩
  · rw [h] at hdone
    cases hdone
  · rw [h] at hdone
    cases hdone
  · exact hfirst

/-- What is found under a name is what the first registration of the name made it. -/
theorem get?_structsAfter_first (calls : List RegistryCall) (name : String)
    (found : StructInfo) :
    (structsAfter calls).get? name = some found ↔
      ∃ front first since, calls = front ++ .register first :: since ∧
        registryAnswer front (.register first) = .registered ∧
        first.symbol.name = name ∧ ¬ Registered front name ∧
        found = first.editedBy since := by
  rw [get?_structsAfter]
  constructor
  · rintro ⟨first, since, hsince, rfl, rfl⟩
    obtain ⟨front, hcalls, hdone, hfirst⟩ := hsince.exists_first
    exact ⟨front, first, since, hcalls, hdone, rfl, hfirst, rfl⟩
  · rintro ⟨front, first, since, hcalls, hdone, hname, _, rfl⟩
    exact ⟨first, since, ⟨front, hcalls, hdone⟩, hname, rfl⟩

/-- A registration that is refused leaves the registry as it was. -/
theorem structsAfter_refused {reason : TableError}
    (h : registryAnswer calls (.register info) = .refused reason)
    (more : List RegistryCall) :
    structsAfter (calls ++ .register info :: more) = structsAfter (calls ++ more) := by
  have hsame : ((structsAfter calls).perform (.register info)).2 = structsAfter calls := by
    rw [registryAnswer] at h
    rcases (structsAfter calls).perform_register info with
      ⟨_, hresult⟩ | ⟨_, _, hresult⟩ | ⟨_, _, hresult⟩
    · rw [hresult]
    · rw [hresult]
    · rw [hresult] at h
      cases h
  rw [structsAfter, structsAfter, List.foldl_append, List.foldl_append, List.foldl_cons]
  exact congrArg (fun registry => more.foldl _ registry) hsame

/-- Two registries that have the same names, and the same struct type under one of them. -/
structure StructRegistry.AlikeFor (name : String) (registry other : StructRegistry) :
    Prop where
  names : ∀ taken, registry.contains taken = other.contains taken
  found : registry.get? name = other.get? name

/-- A call that both registries get keeps them alike. -/
theorem StructRegistry.AlikeFor.perform {registry other : StructRegistry}
    (h : registry.AlikeFor name other) (call : RegistryCall) :
    (registry.perform call).2.AlikeFor name (other.perform call).2 where
  names taken := by
    rw [Bool.eq_iff_iff, StructRegistry.contains_perform, StructRegistry.contains_perform,
      h.names, StructRegistry.registered_congr h.names]
  found := by
    apply Option.ext
    intro info
    rw [StructRegistry.get?_perform, StructRegistry.get?_perform, h.found,
      StructRegistry.registered_congr h.names]

/-- A call that is addressed to another struct type makes no difference. -/
theorem StructRegistry.AlikeFor.skip {registry other : StructRegistry}
    (h : registry.AlikeFor name other) (hcall : call.concerns name = false) :
    (registry.perform call).2.AlikeFor name other := by
  cases call with
  | register info => cases hcall
  | edit target call =>
      have hother : target ≠ name := beq_eq_false_iff_ne.mp hcall
      constructor
      · intro taken
        rw [Bool.eq_iff_iff, StructRegistry.contains_perform, h.names, or_iff_left]
        exact nofun
      · rw [StructRegistry.get?_perform_edit, ← h.found]
        cases hinfo : registry.get? name with
        | none => rfl
        | some info =>
            rw [Option.map_some, StructInfo.editedBy_edit,
              if_neg (StructRegistry.name_of_get? hinfo ▸ hother.symm)]

/-- What becomes of a struct type is settled by the registrations and the calls addressed
to it. -/
theorem structsAfter_alikeFor (calls : List RegistryCall) (name : String) :
    (structsAfter calls).AlikeFor name
      (structsAfter (calls.filter (RegistryCall.concerns name))) := by
  induction calls using List.reverseRecOn with
  | nil => exact ⟨fun _ => rfl, rfl⟩
  | append_singleton calls call ih =>
      rw [structsAfter_append_singleton, List.filter_append, List.filter_singleton]
      cases hcall : call.concerns name with
      | true =>
          rw [cond_true, structsAfter_append_singleton]
          exact ih.perform call
      | false =>
          rw [cond_false, List.append_nil]
          exact ih.skip hcall

/-- The struct registry answers by its history, behind any calls. -/
theorem StructRegistry.answers_by_registrations (calls : List RegistryCall) :
    StructsByHistory calls where
  register_absentName info := by
    rcases registryAnswer_register calls info with
      ⟨hname, h⟩ | ⟨hname, _, h⟩ | ⟨hname, _, h⟩
    all_goals simp [h, hname]
  register_duplicateName info name := by
    rcases registryAnswer_register calls info with
      ⟨hname, h⟩ | ⟨hname, htaken, h⟩ | ⟨_, hfree, h⟩
    · simp [h, hname]
    · simp [h, hname, htaken, eq_comm]
    · simp [h, hfree]
  register_done info := by
    rcases registryAnswer_register calls info with
      ⟨hname, h⟩ | ⟨_, htaken, h⟩ | ⟨hname, hfree, h⟩
    · simp [h, hname]
    · simp [h, htaken]
    · simp [h, hname, hfree]
  refused info reason h more := structsAfter_refused h more
  names_ascend := StructRegistry.names_ascend (structsAfter_distinct calls)
  mem_names name := by rw [StructRegistry.mem_names, contains_structsAfter]
  size := by
    rw [StructRegistry.names, List.length_map, StructRegistry.sorted,
      List.length_mergeSort, StructRegistry.size]
  isEmpty := by
    rw [StructRegistry.isEmpty, List.isEmpty_iff, ← List.length_eq_zero_iff,
      ← List.length_eq_zero_iff, StructRegistry.names, List.length_map,
      StructRegistry.sorted, List.length_mergeSort]
  contains name := by rw [StructRegistry.mem_names]
  get?_isSome name := by
    rw [StructRegistry.mem_names, StructRegistry.contains_eq_isSome]
  lookup_isSome name := by
    rw [StructRegistry.mem_names, StructRegistry.contains_eq_isSome,
      StructRegistry.lookup, Option.isSome_map]
  get?_found name found := get?_structsAfter_first calls name found
  lookup_found name symbol := by
    rw [StructRegistry.lookup, Option.map_eq_some_iff]
    simp only [get?_structsAfter_first]
    constructor
    · rintro ⟨_, ⟨front, first, since, hcalls, hdone, hname, hfirst, rfl⟩, rfl⟩
      exact ⟨front, first, since, hcalls, hdone, hname, hfirst, rfl⟩
    · rintro ⟨front, first, since, hcalls, hdone, hname, hfirst, rfl⟩
      exact ⟨_, ⟨front, first, since, hcalls, hdone, hname, hfirst, rfl⟩, rfl⟩
  edit_absent name call := by
    rw [StructRegistry.mem_names, StructRegistry.contains_eq_isSome, registryAnswer]
    rcases (structsAfter calls).perform_edit name call with ⟨hnone, h⟩ | ⟨info, hinfo, h⟩
    · simp [h, hnone]
    · simp [h, hinfo]
  edit_done name call answer := by
    rw [registryAnswer]
    rcases (structsAfter calls).perform_edit name call with ⟨hnone, h⟩ | ⟨info, hinfo, h⟩
    · simp [h, hnone]
    · simp [h, hinfo, eq_comm]
  apart name := (structsAfter_alikeFor calls name).found

end History

end MiniLang

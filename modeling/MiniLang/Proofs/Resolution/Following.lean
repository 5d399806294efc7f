/-
Two walks side by side where one follows the other under other names. They may stand in
different tables, as long as the tables match: a name stands for the same in one of them as
its other name in the other one.
-/
import MiniLang.Proofs.Resolution.Discipline
import MiniLang.Proofs.Resolution.Ordering
import MiniLang.Proofs.Resolution.Renaming

namespace MiniLang

variable {α β γ α' β' γ' : Type}

section Tables

/-- A table with one more symbol in its innermost scope. -/
def SymbolTable.add (table : SymbolTable) (symbol : Symbol) : SymbolTable :=
  ⟨((symbol.name, symbol) :: table.frames.headD []) :: table.frames.tail⟩

theorem SymbolTable.declare_of_free {table : SymbolTable} {symbol : Symbol}
    (h : table.lookupInnermost symbol.name = .ok none) :
    table.declare symbol.name symbol =
      if symbol.name = "" then .error .absentName else .ok (table.add symbol) := by
  obtain ⟨frames⟩ := table
  cases frames with
  | nil => cases h
  | cons frame outer =>
      have hlookup : frame.lookup symbol.name = none := Except.ok.inj h
      simp only [SymbolTable.declare, or_self, hlookup, Option.isSome_none,
        Bool.false_eq_true, if_false]
      rfl

/-- Declaring a symbol adds it to the innermost scope if its name is neither taken nor
empty. -/
theorem Resolver.run_declare (symbol : Symbol) (walk : Walk) :
    (Resolver.declare symbol).run walk =
      match walk.table.lookupInnermost symbol.name with
      | .error reason => (none, { walk with halted := some reason })
      | .ok (some _) => (none,
          ((Resolver.report .duplicateDeclaration symbol.name symbol.span).run walk).2)
      | .ok none =>
          if symbol.name = "" then (none, { walk with halted := some .absentName })
          else (some symbol, { walk with table := walk.table.add symbol }) := by
  rw [Resolver.declare, Resolver.run_get]
  cases hlookup : walk.table.lookupInnermost symbol.name with
  | error reason => rfl
  | ok found =>
      cases found with
      | some found => rfl
      | none =>
          by_cases hname : symbol.name = ""
          · simp only [SymbolTable.declare_of_free hlookup, if_pos hname]
            rfl
          · simp only [SymbolTable.declare_of_free hlookup, if_neg hname]
            rfl

/-- Whether every symbol of a frame is under its own name, and no name is there twice. -/
structure Frame.Keyed (frame : Frame) : Prop where
  keys : ∀ entry ∈ frame, entry.1 = entry.2.name
  distinct : (frame.map Prod.fst).Nodup

theorem Frame.keyed_nil : Frame.Keyed [] := ⟨List.forall_mem_nil _, List.nodup_nil⟩

theorem Frame.Keyed.cons {frame : Frame} (h : frame.Keyed) {symbol : Symbol}
    (hfree : frame.lookup symbol.name = none) :
    Frame.Keyed ((symbol.name, symbol) :: frame) where
  keys := List.forall_mem_cons.mpr ⟨rfl, h.keys⟩
  distinct := by
    rw [List.map_cons, List.nodup_cons]
    constructor
    · intro hmem
      obtain ⟨entry, hentry, hname⟩ := List.mem_map.mp hmem
      have hne := List.lookup_eq_none_iff.mp hfree entry hentry
      exact absurd hne (by simp [hname])
    · exact h.distinct

/-- Whether all scopes of a table have their symbols under their names. -/
def SymbolTable.Keyed (table : SymbolTable) : Prop :=
  ∀ frame ∈ table.frames, Frame.Keyed frame

theorem SymbolTable.keyed_new : SymbolTable.Keyed .new :=
  List.forall_mem_singleton.mpr Frame.keyed_nil

theorem SymbolTable.Keyed.push {table : SymbolTable} (h : table.Keyed) :
    table.push.Keyed := List.forall_mem_cons.mpr ⟨Frame.keyed_nil, h⟩

theorem SymbolTable.Keyed.add {table : SymbolTable} (h : table.Keyed) {symbol : Symbol}
    (hfree : table.lookupInnermost symbol.name = .ok none) : (table.add symbol).Keyed := by
  obtain ⟨frames⟩ := table
  cases frames with
  | nil => cases hfree
  | cons frame outer =>
      obtain ⟨hframe, houter⟩ := List.forall_mem_cons.mp h
      exact List.forall_mem_cons.mpr ⟨hframe.cons (Except.ok.inj hfree), houter⟩

/-- Whether a relation between tables that holds is kept by what a walk does with them, and
makes names stand for the same up to a renaming. In the innermost scope this is so for all
names, and in all scopes together for those that are used. -/
structure SymbolTable.Matching (anew : Renaming) (used : String → Prop)
    (relate : SymbolTable → SymbolTable → Prop) : Prop where
  innermost : ∀ {table other}, relate table other → ∀ name,
    other.lookupInnermost (anew.name name) =
      (table.lookupInnermost name).map (Option.map (Symbol.rename anew))
  lookup : ∀ {table other}, relate table other → ∀ {name}, used name →
    other.lookup (anew.name name) = (table.lookup name).map (Symbol.rename anew)
  push : ∀ {table other}, relate table other → relate table.push other.push
  add : ∀ {table other}, relate table other → ∀ {symbol : Symbol},
    table.lookupInnermost symbol.name = .ok none →
    relate (table.add symbol) (other.add (symbol.rename anew))

/-- Whether a table is another one with other names. -/
def SymbolTable.Renamed (anew : Renaming) (table other : SymbolTable) : Prop :=
  other = table.rename anew

/-- A table matches its renamed table. -/
theorem SymbolTable.matching_renamed (anew : Renaming) (used : String → Prop) :
    SymbolTable.Matching anew used (SymbolTable.Renamed anew) where
  innermost := by
    rintro table _ rfl name
    exact table.lookupInnermost_rename anew name
  lookup := by
    rintro table _ rfl name _
    exact table.lookup_rename anew name
  push := by
    rintro table _ rfl
    rfl
  add := by
    rintro ⟨frames⟩ _ rfl symbol _
    cases frames <;> rfl

/-- Whether the innermost scopes of two tables agree on some names, and all scopes together
on some others. -/
structure SymbolTable.Agree (declared used : String → Prop) (table other : SymbolTable) :
    Prop where
  innermost : ∀ {name}, declared name →
    other.lookupInnermost name = table.lookupInnermost name
  lookup : ∀ {name}, used name → other.lookup name = table.lookup name

section Agree

variable {declared used : String → Prop} {table other : SymbolTable}

theorem SymbolTable.Agree.push (h : table.Agree declared used other) :
    table.push.Agree (fun _ => True) used other.push :=
  ⟨fun _ => rfl, fun hname => h.lookup hname⟩

theorem SymbolTable.lookupInnermost_add {symbol : Symbol} (table : SymbolTable)
    (hopened : table.lookupInnermost symbol.name = .ok none) (name : String) :
    (table.add symbol).lookupInnermost name =
      if name == symbol.name then .ok (some symbol) else table.lookupInnermost name := by
  obtain ⟨frames⟩ := table
  cases frames with
  | nil => cases hopened
  | cons frame outer =>
      simp only [SymbolTable.add, SymbolTable.lookupInnermost, List.headD_cons,
        List.lookup_cons]
      cases name == symbol.name <;> rfl

theorem SymbolTable.lookup_add {symbol : Symbol} (table : SymbolTable) (name : String) :
    (table.add symbol).lookup name =
      if name == symbol.name then some symbol else table.lookup name := by
  obtain ⟨frames⟩ := table
  cases frames with
  | nil =>
      simp only [SymbolTable.add, SymbolTable.lookup, List.headD_nil, List.tail_nil,
        List.findSome?_cons, List.lookup_cons]
      cases name == symbol.name <;> rfl
  | cons frame outer =>
      simp only [SymbolTable.add, SymbolTable.lookup, List.headD_cons, List.tail_cons,
        List.findSome?_cons, List.lookup_cons]
      cases name == symbol.name <;> rfl

theorem SymbolTable.Agree.add (h : table.Agree declared used other) {symbol : Symbol}
    (hname : declared symbol.name) (hfree : table.lookupInnermost symbol.name = .ok none) :
    (table.add symbol).Agree declared used (other.add symbol) where
  innermost hdeclared := by
    rw [SymbolTable.lookupInnermost_add _ hfree,
      SymbolTable.lookupInnermost_add _ ((h.innermost hname).trans hfree),
      h.innermost hdeclared]
  lookup hused := by
    rw [SymbolTable.lookup_add, SymbolTable.lookup_add, h.lookup hused]

theorem SymbolTable.map_lookupInnermost_same (table : SymbolTable) (name : String) :
    (table.lookupInnermost name).map (Option.map (Symbol.rename .same)) =
      table.lookupInnermost name := by
  cases table.lookupInnermost name with
  | error reason => rfl
  | ok found => rw [Except.map, Symbol.map_rename_same]

/-- Tables match if their innermost scopes agree on all names. -/
theorem SymbolTable.matching_agree (used : String → Prop) :
    SymbolTable.Matching .same used (SymbolTable.Agree (fun _ => True) used) where
  innermost {table other} h name := by
    rw [SymbolTable.map_lookupInnermost_same]
    exact h.innermost trivial
  lookup {table other} h name hname := by
    rw [Symbol.map_rename_same]
    exact h.lookup hname
  push h := h.push
  add {table other} h symbol hfree := by
    rw [Symbol.rename_same]
    exact h.add trivial hfree

end Agree

section Globals

variable {frame frame' : Frame} {table other : SymbolTable}

theorem Frame.Keyed.map_fst (h : frame.Keyed) :
    frame.map Prod.fst = (frame.map Prod.snd).map Symbol.name := by
  rw [List.map_map]
  exact List.map_congr_left h.keys

theorem Frame.Keyed.names_distinct (h : frame.Keyed) :
    ((frame.map Prod.snd).map Symbol.name).Nodup := by
  rw [← h.map_fst]
  exact h.distinct

/-- What is found under a name is the symbol of that name. -/
theorem Frame.Keyed.lookup_eq_some_iff (h : frame.Keyed) {name : String}
    {symbol : Symbol} : frame.lookup name = some symbol ↔
      symbol ∈ frame.map Prod.snd ∧ symbol.name = name := by
  induction frame with
  | nil => simp
  | cons entry rest ih =>
      obtain ⟨key, own⟩ := entry
      obtain ⟨hkey, hkeys⟩ := List.forall_mem_cons.mp h.keys
      obtain ⟨hnew, hdistinct⟩ := List.nodup_cons.mp h.distinct
      have hrest : Frame.Keyed rest := ⟨hkeys, hdistinct⟩
      have hlookup := ih hrest
      dsimp only at hkey hnew
      rw [List.lookup_cons, List.map_cons, List.mem_cons]
      by_cases hname : name = key
      · have hother : ¬ (symbol ∈ rest.map Prod.snd ∧ symbol.name = name) := by
          rintro ⟨hmem, rfl⟩
          rw [← hname, hrest.map_fst] at hnew
          exact hnew (List.mem_map_of_mem hmem)
        rw [beq_iff_eq.mpr hname, Option.some_inj]
        constructor
        · rintro rfl
          exact ⟨.inl rfl, hkey.symm.trans hname.symm⟩
        · rintro ⟨rfl | hmem, hsame⟩
          · rfl
          · exact absurd ⟨hmem, hsame⟩ hother
      · rw [beq_eq_false_iff_ne.mpr hname, hlookup]
        constructor
        · exact fun hmem => ⟨.inr hmem.1, hmem.2⟩
        · rintro ⟨rfl | hmem, hsame⟩
          · exact absurd (hsame.symm.trans hkey.symm) hname
          · exact ⟨hmem, hsame⟩

theorem SymbolTable.Keyed.innermost (h : table.Keyed) :
    Frame.Keyed (table.frames.headD []) := by
  obtain ⟨frames⟩ := table
  cases frames with
  | nil => exact Frame.keyed_nil
  | cons frame outer => exact h frame List.mem_cons_self

/-- Frames in which every name stands for the same have the same symbols. -/
theorem Frame.Keyed.perm (h : frame.Keyed) (h' : frame'.Keyed)
    (hlookup : ∀ name, frame'.lookup name = frame.lookup name) :
    (frame'.map Prod.snd).Perm (frame.map Prod.snd) := by
  rw [List.perm_ext_iff_of_nodup h'.names_distinct.of_map h.names_distinct.of_map]
  intro symbol
  have hmem : frame.lookup symbol.name = some symbol ↔ symbol ∈ frame.map Prod.snd := by
    rw [h.lookup_eq_some_iff, and_iff_left rfl]
  have hmem' : frame'.lookup symbol.name = some symbol ↔ symbol ∈ frame'.map Prod.snd := by
    rw [h'.lookup_eq_some_iff, and_iff_left rfl]
  rw [← hmem, ← hmem', hlookup]

/-- Tables whose innermost scopes agree on all names have the same symbols there. -/
theorem SymbolTable.Agree.innermostSymbols {used : String → Prop}
    (h : table.Agree (fun _ => True) used other) (hkeyed : table.Keyed)
    (hkeyed' : other.Keyed) : other.innermostSymbols = table.innermostSymbols := by
  apply sortByName_eq_of_perm _ hkeyed'.innermost.names_distinct
  apply hkeyed.innermost.perm hkeyed'.innermost
  intro name
  have hname : other.lookupInnermost name = table.lookupInnermost name :=
    h.innermost trivial
  obtain ⟨frames⟩ := table
  obtain ⟨frames'⟩ := other
  cases frames with
  | nil =>
      cases frames' with
      | nil => rfl
      | cons _ _ => cases hname
  | cons _ _ =>
      cases frames' with
      | nil => cases hname
      | cons _ _ => exact Except.ok.inj hname

theorem Symbol.names_rename (anew : Renaming) (symbols : List Symbol) :
    (symbols.map (Symbol.rename anew)).map Symbol.name =
      (symbols.map Symbol.name).map anew.name := by
  rw [List.map_map, List.map_map]
  rfl

/-- The symbols of a renamed table are the renamed symbols, sorted again. -/
theorem SymbolTable.Keyed.innermostSymbols_rename (h : table.Keyed) (anew : Renaming) :
    (table.rename anew).innermostSymbols =
      sortByName (table.innermostSymbols.map (Symbol.rename anew)) := by
  let symbols := (table.frames.headD []).map Prod.snd
  have hsymbols : ((table.rename anew).frames.headD []).map Prod.snd =
      symbols.map (Symbol.rename anew) := by
    obtain ⟨frames⟩ := table
    cases frames with
    | nil => rfl
    | cons frame outer =>
        change (Frame.rename anew frame).map Prod.snd = (frame.map Prod.snd).map _
        rw [Frame.rename, List.map_map, List.map_map]
        rfl
  have hdistinct : ((symbols.map (Symbol.rename anew)).map Symbol.name).Nodup := by
    rw [Symbol.names_rename]
    exact h.innermost.names_distinct.map anew.injective
  rw [SymbolTable.innermostSymbols, hsymbols]
  -- Other names may come in another order, so there is no equality before both are sorted.
  apply sortByName_eq_of_perm _ hdistinct
  exact ((sortByName_perm symbols).map _).symm

end Globals

end Tables

/-- Whether two walks stand in related tables, with the same struct types under their other
names. Behind what was reported ahead, both have reported the same errors. -/
structure Walk.Alike (anew : Renaming) (relate : SymbolTable → SymbolTable → Prop)
    (ahead ahead' : List NameError) (walk other : Walk) : Prop where
  table : relate walk.table other.table
  keyed : walk.table.Keyed ∧ other.table.Keyed
  structs : other.structs = walk.structs.rename anew
  halted : other.halted = walk.halted.map (TableError.rename anew)
  errors : ∃ errors, walk.errors = ahead ++ errors ∧
    other.errors = ahead' ++ errors.map (NameError.rename anew)

/-- Whether a step follows another one: from walks that are alike they lead to such walks,
and the answer of the one is made from that of the other. -/
def Resolver.Follows (anew : Renaming) (relate : SymbolTable → SymbolTable → Prop)
    (step : Resolver α) (twin : Resolver α') (answers : α → α') : Prop :=
  ∀ ⦃ahead ahead' walk other⦄, Walk.Alike anew relate ahead ahead' walk other →
    Walk.Alike anew relate ahead ahead' (step.run walk).2 (twin.run other).2 ∧
      (twin.run other).1 = answers (step.run walk).1

section Follows

variable {anew : Renaming} {relate : SymbolTable → SymbolTable → Prop}
  {step : Resolver α} {twin : Resolver α'} {answers : α → α'} {step' : Resolver β}
  {twin' : Resolver β'} {answers' : β → β'} {final : γ → γ'}

theorem Resolver.Follows.pure {answer : α} {answer' : α'} (h : answer' = answers answer) :
    Resolver.Follows anew relate (Pure.pure answer) (Pure.pure answer') answers :=
  fun _ _ _ _ halike => ⟨halike, h⟩

/-- What is answered may be made in any way that comes to the same. -/
theorem Resolver.Follows.congr {make : α → α'}
    (h : Resolver.Follows anew relate step twin answers)
    (hmake : ∀ answer, answers answer = make answer) :
    Resolver.Follows anew relate step twin make :=
  fun _ _ _ _ halike => ⟨(h halike).1, (h halike).2.trans (hmake _)⟩

theorem Resolver.Follows.bind {next : α → Resolver γ} {next' : α' → Resolver γ'}
    (h : Resolver.Follows anew relate step twin answers)
    (hnext : ∀ answer, Resolver.Follows anew relate (next answer) (next' (answers answer))
      final) : Resolver.Follows anew relate (step >>= next) (twin >>= next') final := by
  intro ahead ahead' walk other halike
  obtain ⟨hafter, hanswer⟩ := h halike
  rw [Resolver.run_bind (Prod.eta (step.run walk)).symm,
    Resolver.run_bind (Prod.eta (twin.run other)).symm, hanswer]
  exact hnext _ hafter

theorem Resolver.Follows.last {make : α → γ} {make' : α' → γ'}
    (h : Resolver.Follows anew relate step twin answers)
    (hmake : ∀ answer, make' (answers answer) = final (make answer)) :
    Resolver.Follows anew relate (step >>= fun answer => Pure.pure (make answer))
      (twin >>= fun answer => Pure.pure (make' answer)) final :=
  h.bind fun answer => .pure (hmake answer)

/-- Two trees behind each other make up a tree. -/
theorem Resolver.Follows.pair {make : α → β → γ} {make' : α' → β' → γ'}
    (h : Resolver.Follows anew relate step twin answers)
    (hmore : Resolver.Follows anew relate step' twin' answers')
    (hmake : ∀ answer answer',
      make' (answers answer) (answers' answer') = final (make answer answer')) :
    Resolver.Follows anew relate
      (do
        let answer ← step
        return make answer (← step'))
      (do
        let answer ← twin
        return make' answer (← twin')) final :=
  h.bind fun answer => hmore.last (hmake answer)

/-- Trees behind each other are followed if each one is. -/
theorem Resolver.Follows.list {rename : α → α} (resolve : α → Resolver α)
    (resolveList : List α → Resolver (List α)) (hnil : resolveList [] = Pure.pure [])
    (hcons : ∀ first rest, resolveList (first :: rest) = do
      let first ← resolve first
      return first :: (← resolveList rest)) {trees : List α}
    (h : ∀ tree ∈ trees,
      Resolver.Follows anew relate (resolve tree) (resolve (rename tree)) rename) :
    Resolver.Follows anew relate (resolveList trees) (resolveList (trees.map rename))
      (List.map rename) := by
  induction trees with
  | nil =>
      rw [List.map_nil, hnil]
      exact .pure rfl
  | cons first rest ih =>
      obtain ⟨hfirst, hrest⟩ := List.forall_mem_cons.mp h
      rw [List.map_cons, hcons, hcons]
      exact hfirst.pair (ih hrest) fun _ _ => rfl

/-- Steps that look at the walk are followed if they are whatever alike walks they see. -/
theorem Resolver.Follows.get {next : Walk → Resolver α} {next' : Walk → Resolver α'}
    (h : ∀ ⦃ahead ahead' walk other⦄, Walk.Alike anew relate ahead ahead' walk other →
      Resolver.Follows anew relate (next walk) (next' other) answers) :
    Resolver.Follows anew relate (MonadState.get >>= next) (MonadState.get >>= next')
      answers :=
  fun _ _ _ _ halike => h halike halike

theorem Resolver.Follows.unlessHalted {idle : α} {idle' : α'}
    (h : Resolver.Follows anew relate step twin answers) (hidle : idle' = answers idle) :
    Resolver.Follows anew relate (Resolver.unlessHalted idle step)
      (Resolver.unlessHalted idle' twin) answers := by
  refine .get fun _ _ walk other halike => ?_
  rw [halike.halted, Option.isSome_map]
  split
  · exact .pure hidle
  · exact h

theorem Resolver.follows_report (fault : NameFault) (name : String) (span : Span) :
    Resolver.Follows anew relate (Resolver.report fault name span)
      (Resolver.report fault (anew.name name) span) id := by
  intro ahead ahead' walk other halike
  let error : NameError := ⟨fault, name, span⟩
  rcases halike.errors with ⟨errors, herrors, herrors'⟩
  refine ⟨{ halike with errors := ⟨errors ++ [error], ?_, ?_⟩ }, rfl⟩
  · calc walk.errors ++ [error] = (ahead ++ errors) ++ [error] := by rw [herrors]
      _ = ahead ++ (errors ++ [error]) := List.append_assoc _ _ _
  · calc other.errors ++ [error.rename anew]
        = (ahead' ++ errors.map (NameError.rename anew)) ++ [error.rename anew] := by
          rw [herrors']
      _ = ahead' ++ (errors ++ [error]).map (NameError.rename anew) := by
          rw [List.append_assoc, List.map_append, List.map_singleton]

theorem Resolver.follows_halt (reason : TableError) :
    Resolver.Follows anew relate (Resolver.halt reason)
      (Resolver.halt (reason.rename anew)) id :=
  fun _ _ _ _ halike => ⟨{ halike with halted := rfl }, rfl⟩

/-- A declaration follows another one if it finds the same in its innermost scope. -/
theorem Resolver.follows_declare {symbol : Symbol}
    (hlookup : ∀ {table other}, relate table other →
      other.lookupInnermost (anew.name symbol.name) =
        (table.lookupInnermost symbol.name).map (Option.map (Symbol.rename anew)))
    (hadd : ∀ {table other}, relate table other →
      table.lookupInnermost symbol.name = .ok none →
      relate (table.add symbol) (other.add (symbol.rename anew))) :
    Resolver.Follows anew relate (Resolver.declare symbol)
      (Resolver.declare (symbol.rename anew)) (Option.map (Symbol.rename anew)) := by
  intro ahead ahead' walk other halike
  have hfound := hlookup halike.table
  have hname : (symbol.rename anew).name = anew.name symbol.name := rfl
  have hspan : (symbol.rename anew).span = symbol.span := rfl
  rw [Resolver.run_declare, Resolver.run_declare, hname, hspan, hfound]
  cases hown : walk.table.lookupInnermost symbol.name with
  | error reason =>
      -- Looking up fails only where no scope is open, for a reason without a name.
      have hreason : reason.rename anew = reason := by
        rw [SymbolTable.lookupInnermost] at hown
        split at hown
        · obtain rfl := Except.error.inj hown
          rfl
        · cases hown
      refine ⟨{ halike with halted := ?_ }, rfl⟩
      exact congrArg some hreason.symm
  | ok found =>
      cases found with
      | some found =>
          exact ⟨(Resolver.follows_report .duplicateDeclaration symbol.name symbol.span
            halike).1, rfl⟩
      | none =>
          rw [Except.map, Option.map_none]
          by_cases hempty : symbol.name = ""
          · rw [if_pos hempty, if_pos (anew.eq_empty_iff.mpr hempty)]
            exact ⟨{ halike with halted := rfl }, rfl⟩
          · rw [if_neg hempty, if_neg (mt anew.eq_empty_iff.mp hempty)]
            have hfree : other.table.lookupInnermost (symbol.rename anew).name =
                .ok none := by
              rw [hname, hfound, hown]
              rfl
            exact ⟨{ halike with
              table := hadd halike.table hown
              keyed := ⟨halike.keyed.1.add hown, halike.keyed.2.add hfree⟩ }, rfl⟩

/-- A step in a scope of its own is followed if it is in the tables with that scope. -/
theorem Resolver.Follows.scoped {inner : SymbolTable → SymbolTable → Prop}
    (hopen : ∀ {table other}, relate table other → inner table.push other.push)
    (h : Resolver.Follows anew inner step twin answers)
    (hstep : Resolver.Keeps SymbolTable.Extends step)
    (htwin : Resolver.Keeps SymbolTable.Extends twin) :
    Resolver.Follows anew relate (Resolver.scoped step) (Resolver.scoped twin) answers := by
  intro ahead ahead' walk other halike
  have hopened : Walk.Alike anew inner ahead ahead' walk.opened other.opened :=
    { halike with
      table := hopen halike.table
      keyed := ⟨halike.keyed.1.push, halike.keyed.2.push⟩ }
  obtain ⟨hinner, hanswer⟩ := h hopened
  rw [Resolver.run_scoped hstep, Resolver.run_scoped htwin]
  exact ⟨{ hinner with table := halike.table, keyed := halike.keyed }, hanswer⟩

/-- A step in a new table is followed if it is where the tables are renamed. -/
theorem Resolver.Follows.withTable
    (h : Resolver.Follows anew (SymbolTable.Renamed anew) step twin answers) :
    Resolver.Follows anew relate (Resolver.withTable .new step)
      (Resolver.withTable .new twin) (Prod.map (SymbolTable.rename anew) answers) := by
  intro ahead ahead' walk other halike
  have hnew : Walk.Alike anew (SymbolTable.Renamed anew) ahead ahead'
      { walk with table := .new } { other with table := .new } :=
    { halike with
      table := rfl
      keyed := ⟨SymbolTable.keyed_new, SymbolTable.keyed_new⟩ }
  obtain ⟨hinner, hanswer⟩ := h hnew
  rw [Resolver.run_withTable walk (Prod.eta _).symm,
    Resolver.run_withTable other (Prod.eta _).symm]
  exact ⟨{ hinner with table := halike.table, keyed := halike.keyed },
    Prod.ext hinner.table hanswer⟩

end Follows

end MiniLang

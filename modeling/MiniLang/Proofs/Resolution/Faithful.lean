/-
Faithful links: a name is linked to a symbol of its own name that a declaration of the
program stands for. Nothing but links is added to a program.
-/
import MiniLang.Proofs.Resolution.Relinking
import MiniLang.Proofs.Resolution.Traversal

namespace MiniLang

/-- Whether a symbol is that of a name that is declared. -/
def MadeFrom (all : List Visit) (symbol : Symbol) : Prop :=
  ∃ own kind, Visit.declared own kind ∈ all ∧ symbol = ⟨own.name, kind, own.span⟩

/-- What a visited name may be linked to: a declared name to its own symbol, a used name to
that of a declaration of the name, and any other name to nothing. -/
def Visit.MayLink (all : List Visit) (symbol : Symbol) : Visit → Prop
  | .declared id kind => symbol = ⟨id.name, kind, id.span⟩
  | .used id => symbol.name = id.name ∧ MadeFrom all symbol
  | .typed _ => False
  | .skipped _ => False

/-- Whether a name that was visited is what it was before, but for a link that it may
have. -/
structure Visit.Faithful (all : List Visit) (visit : Visit) (after : Ident) : Prop where
  unlinked : after.unlinked = visit.id
  links : ∀ symbol ∈ after.symbol, visit.MayLink all symbol

theorem madeFrom_of_mem {all : List Visit} {symbol : Symbol} (h : symbol ∈ symbolsOf all) :
    MadeFrom all symbol := by
  obtain ⟨visit, hvisit, hsymbol⟩ := List.mem_filterMap.mp h
  cases visit with
  | declared own kind =>
      obtain rfl := Option.some.inj hsymbol
      exact ⟨own, kind, hvisit, rfl⟩
  | _ => cases hsymbol

/-- What becomes of a name without a link is faithful to it. -/
theorem Visit.Becomes.faithful {all : List Visit} {visit : Visit} {after : Ident}
    (h : Visit.Becomes all visit after) (hunlinked : visit.id.unlinked = visit.id) :
    Visit.Faithful all visit after := by
  have hnone : visit.id.symbol = none := (congrArg Ident.symbol hunlinked).symm
  cases h with
  | kept =>
      refine ⟨hunlinked, fun symbol hsymbol => ?_⟩
      rw [hnone] at hsymbol
      exact absurd hsymbol nofun
  | declared id kind =>
      exact ⟨hunlinked, fun symbol hsymbol => (Option.some.inj hsymbol).symm⟩
  | used hmem hname =>
      refine ⟨hunlinked, fun symbol hsymbol => ?_⟩
      obtain rfl := Option.some.inj hsymbol
      exact ⟨hname, madeFrom_of_mem hmem⟩

theorem exists_of_forall₂ {α β : Type} {relate : α → β → Prop} {olds : List α}
    {news : List β} (h : List.Forall₂ relate olds news) {new : β} (hnew : new ∈ news) :
    ∃ old ∈ olds, relate old new := by
  induction h with
  | nil => exact absurd hnew List.not_mem_nil
  | cons hfirst _ ih =>
      rcases List.mem_cons.mp hnew with rfl | hrest
      · exact ⟨_, List.mem_cons_self, hfirst⟩
      · obtain ⟨old, hold, hrelate⟩ := ih hrest
        exact ⟨old, List.mem_cons_of_mem _ hold, hrelate⟩

/-- A link that a name may have is to a symbol of its own name, made from a declaration. -/
theorem Visit.madeFrom_of_mayLink {all : List Visit} {visit : Visit} {symbol : Symbol}
    (hvisit : visit ∈ all) (h : visit.MayLink all symbol) :
    symbol.name = visit.id.name ∧ MadeFrom all symbol := by
  cases visit with
  | declared id kind =>
      obtain rfl := h
      exact ⟨rfl, id, kind, hvisit, rfl⟩
  | used id => exact h
  | typed id => exact h.elim
  | skipped id => exact h.elim

/-- Resolution only adds faithful links, whatever its outcome is. A program without links
stays as it is but for them. Names in types and in the fields of rejected structs are not
linked; a declared name is linked to its own symbol, if at all, and a used name to a symbol
of its name that is made from a declaration of the program. -/
theorem Program.resolve_faithful (program : Program)
    (hunlinked : program.unlinked = program) :
    program.resolve.program.unlinked = program ∧
    program.visits.map Visit.id = idsOf program.leaves ∧
    List.Forall₂ (Visit.Faithful program.visits) program.visits
      (idsOf program.resolve.program.leaves) ∧
    ∀ id ∈ idsOf program.resolve.program.leaves, ∀ symbol ∈ id.symbol,
      symbol.name = id.name ∧ MadeFrom program.visits symbol := by
  have hids : ∀ visit ∈ program.visits, visit.id.unlinked = visit.id := by
    have hmap := program.ids_unlinked
    rw [hunlinked, ← program.ids_visits, List.map_map] at hmap
    exact fun visit hvisit => (List.map_inj_left.mp hmap visit hvisit).symm
  have hfaithful : List.Forall₂ (Visit.Faithful program.visits) program.visits
      (idsOf program.resolve.program.leaves) := by
    have hbecomes := (List.forall₂_and_left _ _).mpr ⟨hids, program.resolve_visits.2⟩
    exact hbecomes.imp fun _ _ h => h.2.faithful h.1
  refine ⟨program.relinking.shape.trans hunlinked, program.ids_visits, hfaithful, ?_⟩
  intro id hid symbol hsymbol
  obtain ⟨visit, hvisit, hof⟩ := exists_of_forall₂ hfaithful hid
  have hname : visit.id.name = id.name := (congrArg Ident.name hof.unlinked).symm
  rw [← hname]
  exact Visit.madeFrom_of_mayLink hvisit (hof.links symbol hsymbol)

/-- A program with a struct that is rejected, and a function with a parameter of type `void`
and one whose name is taken: its signature has the types of all parameters. -/
theorem Program.resolve_faithful_signature : ∃ (program : Program) (f a : Symbol),
    program.unlinked = program ∧
    List.Forall₂ (Visit.Faithful program.visits) program.visits
      (idsOf program.resolve.program.leaves) ∧
    (idsOf program.resolve.program.leaves).map Ident.name =
      ["bool", "p", "f", "a", "b", "a", "a", "p"] ∧
    (idsOf program.resolve.program.leaves).map Ident.symbol =
      [none, none, some f, some a, none, none, some a, none] ∧
    f.kind = .function ⟨[.int, .void, .int], .void⟩ ∧ a.kind = .param .int := by
  let name (text : String) (column : Nat) : Ident := ⟨text, .point ⟨1, column⟩, none⟩
  let program : Program :=
    ⟨[.struct (name "bool" 8) [.var .int (name "p" 19)],
      .func .void (name "f" 30) [⟨.int, name "a" 36⟩, ⟨.void, name "b" 44⟩,
        ⟨.int, name "a" 51⟩] (.mk [] [.assign (.assign (.name (name "a" 56))
          (.name (name "p" 60)))])]⟩
  let f : Symbol := ⟨"f", .function ⟨[.int, .void, .int], .void⟩, .point ⟨1, 30⟩⟩
  let a : Symbol := ⟨"a", .param .int, .point ⟨1, 36⟩⟩
  obtain ⟨_, _, hfaithful, _⟩ := Program.resolve_faithful program rfl
  exact ⟨program, f, a, rfl, hfaithful, by decide, by decide, rfl, rfl⟩

end MiniLang

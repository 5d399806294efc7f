/-
Function bodies are independent of each other and of what stands around them: another body
changes what is linked and reported in that body, and nothing else.
-/
import MiniLang.Proofs.Resolution.Behind

namespace MiniLang

/-- A program but for the body of one of its functions. -/
structure BodyHole where
  front : List Decl
  result : TypeNode
  id : Ident
  formals : List Formal
  back : List Decl

def BodyHole.function (hole : BodyHole) (body : Block) : Decl :=
  .func hole.result hole.id hole.formals body

def BodyHole.fill (hole : BodyHole) (body : Block) : Program :=
  ⟨hole.front ++ hole.function body :: hole.back⟩

/-- A function is resolved with its heading and its parameters first. Its body, whatever it
is, has no part in that. -/
theorem Decl.run_func (result : TypeNode) (id : Ident) (formals : List Formal) (walk : Walk) :
    ∃ id' formals', ∀ body : Block, ∃ inner,
      ((Decl.func result id formals body).resolve.run walk).1 =
        (.func result id' formals' inner, none) := by
  let heading := (Resolver.declareFunction result id formals).run walk
  let params := (Resolver.declareFormals formals).run heading.2.opened
  refine ⟨heading.1, params.1, fun body => ⟨(body.resolve.run params.2).1, ?_⟩⟩
  rw [Decl.resolve, Resolver.run_bind (Prod.eta heading).symm,
    Resolver.run_bind (Resolver.run_scoped (Resolver.keeps_inner formals body) _)]
  rfl

section Parts

variable (hole : BodyHole)

/-- The occurrences in front of the function. -/
def BodyHole.before : List Occurrence := Decl.occurrencesOfList [] 0 hole.front

/-- The occurrences in front of the body. -/
def BodyHole.ahead : List Occurrence :=
  hole.before ++ headingOccurrences hole.result hole.id hole.formals hole.front.length

/-- The occurrences of a body in its place. -/
def BodyHole.inside (body : Block) : List Occurrence :=
  body.occurrences [.function hole.front.length]

/-- Other bodies bind and register the same in the outermost scope. -/
theorem BodyHole.same_behind {body body' : Block} (h : body.Shaped) (h' : body'.Shaped) :
    SameBehind (fun _ => True) (hole.ahead ++ hole.inside body)
      (hole.ahead ++ hole.inside body') where
  bound name _ := by
    have hbound (body : Block) : bindings (hole.ahead ++ hole.inside body) [] =
        bindings hole.ahead [] := bindings_append_elsewhere _ (body.scope_ne_nil _)
    rw [hbound body', hbound body]
  structs := by
    have hkept {body : Block} (h : body.Shaped) :
        registryAfter (hole.ahead ++ hole.inside body) = registryAfter hole.ahead :=
      registryAfter_append_structless (h.structless _) _
    rw [hkept h', hkept h]

/-- The errors of a body are about names in it. -/
theorem BodyHole.errorsAmong (body : Block) :
    ErrorsAmong (idsOf body.leaves) (errorsFrom hole.ahead (hole.inside body)) := by
  apply errorsAmong_of_names
  obtain ⟨decls, stmts⟩ := body
  exact (namesOf_block_sublist (fun decl _ => namesOf_sublist_both.1 decl)
    fun stmt _ => namesOf_sublist_both.2 stmt).subset

/-- Up to the body, everything is resolved in the same way, whatever the body is. -/
theorem BodyHole.run_filled (hfront : ∀ decl ∈ hole.front, decl.Shaped) :
    ∃ front id formals symbols, front.length = hole.front.length ∧
      ∀ body : Block, (hole.function body).Shaped → ∃ inner,
        (Decl.resolveList (hole.front ++ [hole.function body])).run .start =
          ((front ++ [.func hole.result id formals inner], symbols),
            .after (hole.ahead ++ hole.inside body) []) := by
  obtain ⟨first, hfirst, hlength⟩ := Decl.run_front hfront
  obtain ⟨id, formals, hrun⟩ := Decl.run_func hole.result hole.id hole.formals
    (.after hole.before [])
  refine ⟨first.1, id, formals, first.2, hlength, fun body hshaped => ?_⟩
  have hnew : Untouched hole.before [.function hole.front.length] :=
    Decl.untouched_list hole.front [] (Nat.le_of_eq (Nat.zero_add _))
  -- That the heading is the same for all bodies, and what the walk behind them is.
  obtain ⟨inner, hinner⟩ := hrun body
  obtain ⟨answer, hlinks, _⟩ := hshaped.links hnew
  obtain rfl : answer = (.func hole.result id formals inner, none) := by
    rw [← hinner]
    exact (congrArg Prod.fst hlinks).symm
  have hfunction : (Decl.resolveList [hole.function body]).run (.after hole.before []) =
      _ := Decl.run_cons hlinks (Decl.run_nil _)
  have hboth := Decl.run_append hfirst hfunction
  refine ⟨inner, hboth.trans ?_⟩
  rw [BodyHole.ahead, BodyHole.inside, List.append_assoc]
  simp only [Option.toList_none, List.append_nil]
  rfl

end Parts

/-- Function bodies are independent. Another body of a function changes neither what the
phases behind are told nor any link outside of the body. The errors are the same ones in
front of those of the body and behind them, and those of a body are about names in it. -/
theorem Program.resolve_body {hole : BodyHole} {body body' : Block}
    (h : (hole.fill body).Shaped) (h' : body'.Shaped) :
    ∃ (linked : BodyHole) (inner inner' : Block)
      (ahead errors errors' behind : List NameError) (names names' : Namespace),
      linked.front.length = hole.front.length ∧
      (hole.fill body).resolve.program = linked.fill inner ∧
      (hole.fill body').resolve.program = linked.fill inner' ∧
      (hole.fill body).resolve.errors = ahead ++ errors ++ behind ∧
      (hole.fill body').resolve.errors = ahead ++ errors' ++ behind ∧
      ErrorsAmong (idsOf body.leaves) errors ∧
      ErrorsAmong (idsOf body'.leaves) errors' ∧
      (hole.fill body).resolve.outcome = .ok names ∧
      (hole.fill body').resolve.outcome = .ok names' ∧
      names.Same names' := by
  obtain ⟨hfront, hrest⟩ := List.forall_mem_append.mp h
  obtain ⟨hfunction, _⟩ := List.forall_mem_cons.mp hrest
  obtain ⟨names, houtcome⟩ := h.outcome
  obtain ⟨front, id, formals, symbols, hlength, hrun⟩ := hole.run_filled hfront
  obtain ⟨inner, hinner⟩ := hrun body hfunction
  obtain ⟨inner', hinner'⟩ := hrun body' (hfunction.withBody h')
  have hsame := hole.same_behind (Block.shaped_of_func hfunction) h'
  obtain ⟨rest, behind, hprogram, hprogram', herrors, herrors', hnames⟩ :=
    Program.resolve_behind hinner hinner' hsame hole.back
  have hfill (body : Block) : hole.fill body =
      ⟨hole.front ++ [hole.function body] ++ hole.back⟩ := by
    rw [List.append_assoc]
    rfl
  rw [errorsAfter_append, ← hfill] at herrors herrors'
  rw [← hfill] at hprogram hprogram'
  rw [← hfill, ← hfill] at hnames
  obtain ⟨names', houtcome', hsameNames⟩ := hnames names houtcome
  refine ⟨⟨front, hole.result, id, formals, rest⟩, inner, inner', errorsAfter hole.ahead,
    errorsFrom hole.ahead (hole.inside body), errorsFrom hole.ahead (hole.inside body'),
    behind, names, names', hlength, ?_, ?_, herrors, herrors', hole.errorsAmong body,
    hole.errorsAmong body', houtcome, houtcome', hsameNames⟩
  · rw [hprogram, List.append_assoc]
    rfl
  · rw [hprogram', List.append_assoc]
    rfl

/-- A body with a parameter declared again and a name that is not declared has errors for
both, between those of the other body that the program had. -/
theorem Program.resolve_body_clash : ∃ (hole : BodyHole) (body body' : Block)
    (names names' : Namespace),
    parseTokens (scan
      "void v; int f(int a) { bool b; b = a; } int g() { f = z; }").tokens =
        .ok (hole.fill body) ∧
    parseTokens (scan
      "void v; int f(int a) { bool a; y = a; } int g() { f = z; }").tokens =
        .ok (hole.fill body') ∧
    (hole.fill body).resolve.errors =
      [⟨.voidVariable, "v", Span.ofLength ⟨1, 6⟩ 1⟩,
        ⟨.undeclaredIdentifier, "z", Span.ofLength ⟨1, 55⟩ 1⟩] ∧
    (hole.fill body').resolve.errors =
      [⟨.voidVariable, "v", Span.ofLength ⟨1, 6⟩ 1⟩,
        ⟨.duplicateDeclaration, "a", Span.ofLength ⟨1, 29⟩ 1⟩,
        ⟨.undeclaredIdentifier, "y", Span.ofLength ⟨1, 32⟩ 1⟩,
        ⟨.undeclaredIdentifier, "z", Span.ofLength ⟨1, 55⟩ 1⟩] ∧
    (hole.fill body).resolve.outcome = .ok names ∧
    (hole.fill body').resolve.outcome = .ok names' ∧ names.Same names' := by
  let name (text : String) (column : Nat) : Ident :=
    ⟨text, Span.ofLength ⟨1, column⟩ 1, none⟩
  let hole : BodyHole := ⟨[.var .void (name "v" 6)], .int, name "f" 13,
    [⟨.int, name "a" 19⟩],
    [.func .int (name "g" 45) []
      (.mk [] [.assign (.assign (.name (name "f" 51)) (.name (name "z" 55)))])]⟩
  let body : Block := .mk [.var .bool (name "b" 29)]
    [.assign (.assign (.name (name "b" 32)) (.name (name "a" 36)))]
  let body' : Block := .mk [.var .bool (name "a" 29)]
    [.assign (.assign (.name (name "y" 32)) (.name (name "a" 36)))]
  have hparse : parseTokens (scan
      "void v; int f(int a) { bool b; b = a; } int g() { f = z; }").tokens =
        .ok (hole.fill body) := by cbv
  have hparse' : parseTokens (scan
      "void v; int f(int a) { bool a; y = a; } int g() { f = z; }").tokens =
        .ok (hole.fill body') := by cbv
  have hshaped' : body'.Shaped := ⟨by decide, by decide⟩
  obtain ⟨_, _, _, _, _, _, _, names, names', _, _, _, _, _, _, _, houtcome, houtcome',
    hsame⟩ := Program.resolve_body (Program.shaped_of_parse hparse) hshaped'
  exact ⟨hole, body, body', names, names', hparse, hparse', rfl, rfl, houtcome, houtcome',
    hsame⟩

end MiniLang

/-
The words of a text in its tree: from the left to the right, the names and literals of
a program are those among the tokens that it is read from.
-/
import MiniLang.Proofs.Grammar.Acceptance
import MiniLang.Proofs.Grammar.Leaves
import Mathlib

namespace MiniLang

def Token.isLeaf (token : Token) : Bool :=
  match token.kind with
  | .ident _ => true
  | .int _ => true
  | .str _ => true
  | .keyword .true_ => true
  | .keyword .false_ => true
  | _ => false

/-- Whether a leaf stands for a token: it is the same word in the same place, and if it
is a name, it is not linked. -/
structure Leaf.StandsFor (leaf : Leaf) (token : Token) : Prop where
  word : leaf.kind = token.kind
  place : leaf.span = token.span
  unlinked : ∀ id, leaf = .name id → id.symbol = none

theorem Token.standsFor_of_leaf? {token : Token} {leaf : Leaf}
    (h : token.leaf? = some leaf) : leaf.StandsFor token := by
  unfold Token.leaf? at h
  split at h
  case h_1 hkind =>
    obtain rfl := Option.some.inj h
    refine ⟨hkind.symm, rfl, ?_⟩
    rintro _ ⟨⟩
    rfl
  case h_2 hkind | h_3 hkind | h_4 hkind | h_5 hkind =>
    obtain rfl := Option.some.inj h
    exact ⟨hkind.symm, rfl, nofun⟩
  case h_6 => exact absurd h nofun

theorem Token.isSome_leaf? (token : Token) :
    token.leaf?.isSome = token.isLeaf := by
  unfold Token.leaf? Token.isLeaf
  cases token.kind with
  | keyword word => cases word <;> rfl
  | _ => rfl

/-- The leaves of tokens stand for the names and literals among them, one by one. -/
theorem standsFor_leaves (tokens : List Token) :
    List.Forall₂ Leaf.StandsFor (tokens.filterMap Token.leaf?)
      (tokens.filter Token.isLeaf) := by
  induction tokens with
  | nil => exact .nil
  | cons token rest ih =>
      have hleaf := token.isSome_leaf?
      cases hread : token.leaf? with
      | none =>
          rw [hread, Option.isSome_none] at hleaf
          rwa [List.filterMap_cons_none hread, List.filter_cons_of_neg (by simp [← hleaf])]
      | some leaf =>
          rw [hread, Option.isSome_some] at hleaf
          rw [List.filterMap_cons_some hread, List.filter_cons_of_pos hleaf.symm]
          exact .cons (Token.standsFor_of_leaf? hread) ih

/-- The leaves of a program stand for the names and literals of its text, one for each of
them and in the same order. -/
theorem parseTokens_leaves {source : String} {program : Program}
    (h : parseTokens (scan source).tokens = .ok program) :
    List.Forall₂ Leaf.StandsFor program.leaves
      ((scan source).tokens.filter Token.isLeaf) := by
  obtain ⟨part, hpart, htokens⟩ := parseTokens_scan_iff.mp h
  have heof : [Token.eofAt (Position.origin.after source.toList)].filter
      Token.isLeaf = [] := rfl
  rw [hpart.leaves, htokens, scan_tokens, List.filter_append, heof, List.append_nil]
  exact standsFor_leaves _

/-- A program with a name of each sort, and a literal behind its field. -/
theorem parseTokens_leaves_field : ∃ program,
    parseTokens (scan "struct p { int a; };\nvoid f(struct p q) { g(q.a, true); }").tokens =
      .ok program ∧
    program.leaves.map Leaf.kind =
      [.ident "p", .ident "a", .ident "f", .ident "p", .ident "q", .ident "g", .ident "q",
        .ident "a", .keyword .true_] ∧
    List.Forall₂ Leaf.StandsFor program.leaves
      ((scan "struct p { int a; };\nvoid f(struct p q) { g(q.a, true); }").tokens.filter
        Token.isLeaf) := by
  let word (name : String) (line column : Nat) : Ident :=
    ⟨name, Span.ofLength ⟨line, column⟩ 1, none⟩
  have hparse :
      parseTokens (scan "struct p { int a; };\nvoid f(struct p q) { g(q.a, true); }").tokens =
        .ok ⟨[.struct (word "p" 1 8) [.var .int (word "a" 1 16)],
          .func .void (word "f" 2 6) [⟨.struct (word "p" 2 15), word "q" 2 17⟩]
            (.mk [] [.call (word "g" 2 22)
              [.dot (.name (word "q" 2 24)) (word "a" 2 26),
                .bool (Span.ofLength ⟨2, 29⟩ 4) true]])]⟩ := by cbv
  exact ⟨_, hparse, rfl, parseTokens_leaves hparse⟩

end MiniLang

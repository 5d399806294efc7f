/-
The tokens of a text: they are those of its pieces, and the end of the file behind
them.
-/
import MiniLang.Proofs.Token.Division

namespace MiniLang

/-- The tokens of a text, without the end of the file. -/
def wordsOf (text : String) : List Token :=
  (placePieces .origin (pieces text.toList)).filterMap PlacedPiece.token?

theorem scan_tokens (text : String) :
    (scan text).tokens =
      wordsOf text ++ [Token.eofAt (Position.origin.after text.toList)] := rfl

theorem map_piece_placePieces (start : Position) (pieces : List Piece) :
    (placePieces start pieces).map PlacedPiece.piece = pieces := by
  induction pieces generalizing start with
  | nil => rfl
  | cons piece rest ih => rw [placePieces, List.map_cons, ih]

theorem kinds_wordsOf (text : String) :
    (wordsOf text).map Token.kind =
      (pieces text.toList).filterMap fun piece => piece.kind.token? := by
  have hkind : ∀ placed : PlacedPiece,
      placed.token?.map Token.kind = placed.piece.kind.token? := by
    intro placed
    rw [PlacedPiece.token?, Option.map_map]
    exact Option.map_id'
  rw [wordsOf, List.map_filterMap]
  simp only [hkind]
  have hpieces := map_piece_placePieces .origin (pieces text.toList)
  refine Eq.trans ?_ (congrArg (List.filterMap fun piece => piece.kind.token?) hpieces)
  rw [List.filterMap_map]
  rfl

theorem issues_scan (text : String) :
    (scan text).issues = [] ↔ ∀ piece ∈ pieces text.toList, piece.kind.fault? = none := by
  have hissues : (scan text).issues =
      (placePieces .origin (pieces text.toList)).filterMap PlacedPiece.issue? := rfl
  rw [hissues, List.filterMap_eq_nil_iff]
  constructor
  · intro h piece hpiece
    rw [← map_piece_placePieces .origin (pieces text.toList)] at hpiece
    obtain ⟨placed, hplaced, rfl⟩ := List.mem_map.mp hpiece
    simpa [PlacedPiece.issue?] using h placed hplaced
  · intro h placed hplaced
    have hpiece : placed.piece ∈ pieces text.toList := by
      rw [← map_piece_placePieces .origin (pieces text.toList)]
      exact List.mem_map_of_mem hplaced
    simp [PlacedPiece.issue?, h placed.piece hpiece]

/-- Every token of a text can be read from a text. -/
theorem spelled_of_mem_wordsOf {text : String} :
    ∀ token ∈ wordsOf text, token.kind.Spelled := by
  intro token htoken
  have hkind : token.kind ∈ (pieces text.toList).filterMap
      fun piece => piece.kind.token? := by
    rw [← kinds_wordsOf]
    exact List.mem_map_of_mem htoken
  obtain ⟨piece, hpiece, hread⟩ := List.mem_filterMap.mp hkind
  exact spelled_of_mem_pieces piece hpiece token.kind hread

theorem not_isEof_of_mem_wordsOf {text : String} :
    ∀ token ∈ wordsOf text, token.isEof = false := by
  intro token htoken
  have hspelled := spelled_of_mem_wordsOf token htoken
  rw [Token.isEof, beq_eq_false_iff_ne]
  intro heof
  rw [heof] at hspelled
  exact hspelled

/-- Pieces that are not empty stand behind each other. -/
theorem placePieces_ascend {pieces : List Piece} (h : ∀ piece ∈ pieces, piece.text ≠ [])
    (start : Position) :
    (∀ placed ∈ placePieces start pieces,
      start = placed.start ∨ start.Before placed.start) ∧
    (placePieces start pieces).Pairwise fun placed other =>
      placed.start.Before other.start := by
  induction pieces generalizing start with
  | nil => exact ⟨List.forall_mem_nil _, .nil⟩
  | cons piece rest ih =>
      obtain ⟨hpiece, hrest⟩ := List.forall_mem_cons.mp h
      obtain ⟨hbehind, hascend⟩ := ih hrest (start.after piece.text)
      have hafter := start.before_after hpiece
      have hmore : ∀ placed ∈ placePieces (start.after piece.text) rest,
          start.Before placed.start := by
        intro placed hplaced
        rcases hbehind placed hplaced with hsame | hbefore
        · rw [← hsame]
          exact hafter
        · exact hafter.trans hbefore
      refine ⟨List.forall_mem_cons.mpr ⟨.inl rfl, fun placed hplaced => ?_⟩, ?_⟩
      · exact .inr (hmore placed hplaced)
      · exact List.pairwise_cons.mpr ⟨hmore, hascend⟩

/-- The tokens of a text stand behind each other. -/
theorem wordsOf_ascend (text : String) :
    (wordsOf text).Pairwise fun token other => token.start.Before other.start := by
  have hpieces : ∀ piece ∈ pieces text.toList, piece.text ≠ [] :=
    text_ne_nil_of_mem_pieces
  refine (placePieces_ascend hpieces .origin).2.filterMap PlacedPiece.token? ?_
  intro placed other hbefore token htoken next hnext
  obtain ⟨kind, _, rfl⟩ := Option.map_eq_some_iff.mp htoken
  obtain ⟨kind', _, rfl⟩ := Option.map_eq_some_iff.mp hnext
  exact hbefore

end MiniLang

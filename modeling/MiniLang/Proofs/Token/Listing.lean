/-
Listings of tokens. No token is written over a newline, so a listing falls into its lines;
no number is written with a space, so a line falls into what is written and a place; and
what is written is scanned as the token that it stands for. Main statement: two documents
are listed alike exactly if their tokens say the same in the same places.
-/
import MiniLang.Check
import MiniLang.Proofs.Source.Split
import MiniLang.Proofs.Token.Tokens

namespace MiniLang

/-- What a listing tells of a token: what it says, and where it starts. -/
def Token.shown (token : Token) : TokenKind × Position := (token.kind, token.start)

section Lines

theorem splitOn_lines {lines : List (List Char)} (h : ∀ line ∈ lines, '\n' ∉ line) :
    (lines.flatMap (· ++ ['\n'])).splitOn '\n' = lines ++ [[]] := by
  induction lines with
  | nil => rfl
  | cons line rest ih =>
      obtain ⟨hline, hrest⟩ := List.forall_mem_cons.mp h
      rw [List.flatMap_cons, List.append_assoc, List.singleton_append, splitOn_newline,
        List.splitOn_eq_singleton hline, ih hrest, List.singleton_append, List.cons_append]

/-- Lines are told by the text that they make up. -/
theorem lines_inj {lines others : List (List Char)} (hlines : ∀ line ∈ lines, '\n' ∉ line)
    (hothers : ∀ line ∈ others, '\n' ∉ line)
    (h : lines.flatMap (· ++ ['\n']) = others.flatMap (· ++ ['\n'])) : lines = others := by
  have hsplit := congrArg (List.splitOn '\n') h
  rw [splitOn_lines hlines, splitOn_lines hothers] at hsplit
  exact List.append_cancel_right hsplit

/-- Lists that are alike under one view are alike under every view that it tells. -/
theorem map_eq_map_of_told {α β γ : Type} {view : α → β} {told : α → γ}
    {items others : List α}
    (htold : ∀ item ∈ items, ∀ other ∈ others, view item = view other →
      told item = told other)
    (h : items.map view = others.map view) : items.map told = others.map told := by
  induction items generalizing others with
  | nil =>
      rw [List.map_eq_nil_iff.mp h.symm]
  | cons item rest ih =>
      obtain ⟨other, more, rfl, hfirst, hrest⟩ := List.map_eq_cons_iff.mp h.symm
      rw [List.map_cons, List.map_cons,
        htold item List.mem_cons_self other List.mem_cons_self hfirst.symm]
      refine congrArg (told other :: ·) (ih ?_ hrest.symm)
      intro item hitem other hother
      exact htold item (List.mem_cons_of_mem _ hitem) other (List.mem_cons_of_mem _ hother)

end Lines

section Spellings

variable {kind other : TokenKind}

theorem TokenKind.Spelled.pieces_alone (h : kind.Spelled) :
    pieces kind.spelling.toList = [⟨.token kind, kind.spelling.toList⟩] := by
  have halone := pieces_spelling h kind.stops_nil
  rw [List.append_nil, pieces] at halone
  exact halone

/-- No two tokens of texts are spelled alike, though the end of the file is spelled like
the name `EOF`. -/
theorem TokenKind.Spelled.eq_of_spelling (h : kind.Spelled) (hother : other.Spelled)
    (heq : kind.spelling = other.spelling) : kind = other := by
  have hpieces := h.pieces_alone
  rw [heq, hother.pieces_alone] at hpieces
  injection hpieces with hpiece _
  injection hpiece with hkind _
  injection hkind with hkind
  exact hkind.symm

theorem TokenKind.Spelled.newline_notMem (h : kind.Spelled) :
    '\n' ∉ kind.spelling.toList := by
  have hmem : ⟨.token kind, kind.spelling.toList⟩ ∈ pieces kind.spelling.toList := by
    rw [h.pieces_alone]
    exact List.mem_singleton_self _
  obtain ⟨_, hfits⟩ := fits_of_mem_pieces _ hmem
  exact hfits.newline_notMem nofun

end Spellings

section Render

theorem toList_toString (n : Nat) : (toString n).toList = Nat.toDigits 10 n :=
  Nat.toList_repr

theorem notMem_toString {c : Char} (h : c.isDigit = false) (n : Nat) :
    c ∉ (toString n).toList := by
  intro hmem
  rw [toList_toString] at hmem
  rw [Nat.isDigit_of_mem_toDigits (by decide) (by decide) hmem] at h
  cases h

/-- What stands behind the last space of a text is told by the text. -/
theorem append_space_inj {front front' back back' : List Char} (h : ' ' ∉ back)
    (h' : ' ' ∉ back') (heq : front ++ ' ' :: back = front' ++ ' ' :: back') :
    front = front' ∧ back = back' := by
  have hlast : ∀ {front back : List Char}, ' ' ∉ back →
      (front ++ ' ' :: back).reverse.takeWhile (· != ' ') = back.reverse := by
    intro front back hback
    have hreverse : (front ++ ' ' :: back).reverse =
        back.reverse ++ ' ' :: front.reverse := by
      simp
    rw [hreverse]
    refine takeWhile_append_stop (fun c hc => ?_) (fun c hc => ?_)
    · rw [bne_iff_ne]
      rintro rfl
      exact hback (List.mem_reverse.mp hc)
    · obtain rfl := Option.some.inj hc
      rfl
  have hback : back = back' := by
    have hreverse := congrArg (fun text => text.reverse.takeWhile (· != ' ')) heq
    simp only [hlast h, hlast h'] at hreverse
    exact List.reverse_injective hreverse
  rw [hback] at heq
  exact ⟨List.append_cancel_right heq, hback⟩

/-- A number behind a separator is told by the text, and so is what stands in front. -/
theorem append_number_inj {front other : String} {n m : Nat}
    (h : front ++ " : " ++ toString n = other ++ " : " ++ toString m) :
    front = other ∧ n = m := by
  have hchars : ∀ (front : String) (n : Nat), (front ++ " : " ++ toString n).toList =
      (front.toList ++ [' ', ':']) ++ ' ' :: (toString n).toList := by
    intro front n
    simp only [String.toList_append, List.append_assoc]
    rfl
  have hlists := congrArg String.toList h
  rw [hchars, hchars] at hlists
  obtain ⟨hfront, hnumber⟩ :=
    append_space_inj (notMem_toString rfl n) (notMem_toString rfl m) hlists
  constructor
  · exact String.toList_inj.mp (List.append_cancel_right hfront)
  · rw [toList_toString, toList_toString] at hnumber
    rw [← @Nat.ofDigitChars_ten_toDigits n, hnumber, Nat.ofDigitChars_ten_toDigits]

theorem Token.render_inj {token other : Token} (h : token.render = other.render) :
    token.kind.spelling = other.kind.spelling ∧ token.start = other.start := by
  rw [Token.render, Token.render] at h
  obtain ⟨hfront, hcolumn⟩ := append_number_inj h
  obtain ⟨hspelling, hline⟩ := append_number_inj hfront
  refine ⟨hspelling, ?_⟩
  calc token.start = ⟨token.start.line, token.start.column⟩ := rfl
    _ = ⟨other.start.line, other.start.column⟩ := by rw [hline, hcolumn]
    _ = other.start := rfl

theorem Token.newline_notMem_render {token : Token}
    (h : '\n' ∉ token.kind.spelling.toList) : '\n' ∉ token.render.toList := by
  have hnumber := notMem_toString (c := '\n') rfl
  have hseparator : '\n' ∉ " : ".toList := by decide
  rw [Token.render]
  simp only [String.toList_append, List.mem_append, not_or]
  exact ⟨⟨⟨⟨h, hseparator⟩, hnumber _⟩, hseparator⟩, hnumber _⟩

end Render

section Listing

theorem newline_notMem_render_of_mem_scan {text : String} :
    ∀ token ∈ (scan text).tokens, '\n' ∉ token.render.toList := by
  rw [scan_tokens]
  refine List.forall_mem_append.mpr ⟨fun token htoken => ?_, ?_⟩
  · exact Token.newline_notMem_render (spelled_of_mem_wordsOf token htoken).newline_notMem
  · rw [List.forall_mem_singleton]
    have heof : '\n' ∉ (TokenKind.eof).spelling.toList := by decide
    exact Token.newline_notMem_render heof

/-- A listing is the lines of its tokens, each with a newline behind it. -/
theorem Document.dumpTokens_text (doc : Document) : doc.dumpTokens.text.toList =
    ((scan doc.text).tokens.map fun token => token.render.toList).flatMap
      (· ++ ['\n']) := by
  rw [Document.dumpTokens, String.toList_join, List.flatMap_map, List.flatMap_map]
  refine List.flatMap_congr fun token _ => ?_
  rw [String.toList_append]
  rfl

/-- A document is listed line by line, so the lines are told by the listing. -/
theorem Document.renders_of_dumpTokens {doc other : Document}
    (h : doc.dumpTokens.text = other.dumpTokens.text) :
    (scan doc.text).tokens.map Token.render = (scan other.text).tokens.map Token.render := by
  have hchars := congrArg String.toList h
  rw [Document.dumpTokens_text, Document.dumpTokens_text] at hchars
  have hlines := lines_inj (List.forall_mem_map.mpr newline_notMem_render_of_mem_scan)
    (List.forall_mem_map.mpr newline_notMem_render_of_mem_scan) hchars
  refine map_eq_map_of_told (fun token _ other _ hsame => ?_) hlines
  exact String.toList_inj.mp hsame

/-- Two documents are listed alike exactly if they have equally many tokens, and these say
the same in the same places, one after the other. -/
theorem Document.dumpTokens_eq_iff (doc other : Document) :
    doc.dumpTokens.text = other.dumpTokens.text ↔
      (scan doc.text).tokens.map Token.shown = (scan other.text).tokens.map Token.shown := by
  constructor
  · intro h
    have hrenders := Document.renders_of_dumpTokens h
    rw [scan_tokens, scan_tokens, List.map_append, List.map_append] at hrenders ⊢
    obtain ⟨hwords, hends⟩ := List.append_inj' hrenders rfl
    have hshown :
        (wordsOf doc.text).map Token.shown = (wordsOf other.text).map Token.shown := by
      refine map_eq_map_of_told (fun token htoken other hother hsame => ?_) hwords
      obtain ⟨hspelling, hstart⟩ := Token.render_inj hsame
      have hkind := (spelled_of_mem_wordsOf token htoken).eq_of_spelling
        (spelled_of_mem_wordsOf other hother) hspelling
      rw [Token.shown, Token.shown, hkind, hstart]
    have hplace := (Token.render_inj (List.singleton_inj.mp hends)).2
    rw [hshown]
    exact congrArg (fun place => _ ++ [(TokenKind.eof, place)]) hplace
  · intro h
    have hlines : (scan doc.text).tokens.map (·.render ++ "\n") =
        (scan other.text).tokens.map (·.render ++ "\n") := by
      refine map_eq_map_of_told (fun token _ other _ hsame => ?_) h
      rw [Token.shown, Token.shown, Prod.mk.injEq] at hsame
      rw [Token.render, Token.render, hsame.1, hsame.2]
    exact congrArg String.join hlines

end Listing

end MiniLang

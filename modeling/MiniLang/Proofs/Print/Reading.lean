/-
Reading a printed text: items that are readable and do not run into each other are
read back one by one, without an issue.
-/
import MiniLang.Proofs.Token.Tokens
import MiniLang.Tree.Printer

namespace MiniLang

/-- The token that an item is read as, if it is one. -/
def PrintItem.kind? : PrintItem → Option TokenKind
  | .token kind => some kind
  | _ => none

/-- Whether an item can be read back: it is layout, or a token with a spelling. -/
def PrintItem.Readable : PrintItem → Prop
  | .token kind => kind.Spelled
  | .note _ => False
  | _ => True

def TokenKind.isWord : TokenKind → Bool
  | .keyword _ => true
  | .ident _ => true
  | .int _ => true
  | _ => false

/-- Whether a token is a mark that can be made longer. -/
def TokenKind.grows : TokenKind → Bool
  | .punct mark => mark.grows
  | _ => false

/-- Whether a token may make a mark in front of it longer. -/
def TokenKind.lengthens : TokenKind → Bool
  | .punct mark => mark != .leftParen
  | _ => false

/-- Whether two items next to each other do not run into each other. -/
def separable : PrintItem → PrintItem → Bool
  | .token kind, .token next =>
      !(kind.isWord && next.isWord) && !(kind.grows && next.lengthens)
  | .token _, .space count => count != 0
  | .token _, .note _ => false
  | _, _ => true

/-- Whether items can be read back one by one. -/
def Tidy : List PrintItem → Prop
  | [] => True
  | item :: rest =>
      item.Readable ∧ (∀ next ∈ rest.head?, separable item next = true) ∧ Tidy rest

def PrintItem.pieces : PrintItem → List Piece
  | .token kind => [⟨.token kind, kind.spelling.toList⟩]
  | .space count => List.replicate count ⟨.blank, [' ']⟩
  | .newline => [⟨.blank, ['\n']⟩]
  | .note _ => []

theorem isWordPart_eq (c : Char) : isWordPart c = (isWordStart c || c.isDigit) := by
  simp only [isWordPart, isWordStart, Char.isAlphanum]
  cases c.isAlpha <;> cases c.isDigit <;> simp

theorem not_lengthens_of_isWordPart {c : Char} (h : isWordPart c = true) :
    lengthens c = false := by
  by_cases hlong : lengthens c = true
  · have hmem : c ∈ ['+', '-', '/', '<', '>', '='] := by
      simpa [lengthens] using hlong
    simp only [List.mem_cons, List.not_mem_nil, or_false] at hmem
    rcases hmem with rfl | rfl | rfl | rfl | rfl | rfl <;> exact absurd h (by decide)
  · simpa using hlong

/-- The first character of a spelling tells words from all others. -/
theorem head_of_spelled {kind : TokenKind} (h : kind.Spelled) :
    ∃ c rest, kind.spelling.toList = c :: rest ∧ isWordPart c = kind.isWord ∧
      (lengthens c = true → kind.lengthens = true) := by
  have hword : ∀ {c : Char}, isWordPart c = true →
      lengthens c = true → kind.lengthens = true := by
    intro c hc hlong
    rw [not_lengthens_of_isWordPart hc] at hlong
    exact absurd hlong (by simp)
  cases kind with
  | keyword word => cases word <;> exact ⟨_, _, rfl, by decide, by decide⟩
  | punct mark => cases mark <;> exact ⟨_, _, rfl, by decide, by decide⟩
  | ident name =>
      obtain ⟨c, rest, hname, hstart, _⟩ := h
      have hpart := isWordPart_of_isWordStart hstart
      exact ⟨c, rest, hname, hpart, hword hpart⟩
  | int value =>
      obtain ⟨n, rfl⟩ := Int.eq_ofNat_of_zero_le h.1
      have hspelling : (toString (n : Int)).toList = Nat.toDigits 10 n :=
        Nat.toList_repr
      cases hcases : Nat.toDigits 10 n with
      | nil => exact absurd hcases Nat.toDigits_ne_nil
      | cons c rest =>
          have hpart : isWordPart c = true := isWordPart_of_isDigit
            (Nat.isDigit_of_mem_toDigits (b := 10) (n := n) (by decide) (by decide)
              (by simp [hcases]))
          exact ⟨c, rest, hspelling.trans hcases, hpart, hword hpart⟩
  | str text =>
      obtain ⟨rest, htext, _⟩ := h
      exact ⟨'"', rest, htext, rfl, fun hlong => absurd hlong (by decide)⟩
  | eof => exact absurd h id

/-- A token stops in front of a character that cannot be a part of it. -/
theorem TokenKind.stops_cons {kind : TokenKind} {c : Char} {behind : List Char}
    (hword : kind.isWord = true → isWordPart c = false)
    (hgrows : kind.grows = true → MiniLang.lengthens c = false) :
    kind.Stops (c :: behind) := by
  cases kind with
  | keyword word =>
      intro next hnext
      obtain rfl : c = next := by simpa using hnext
      exact hword rfl
  | ident name =>
      intro next hnext
      obtain rfl : c = next := by simpa using hnext
      exact hword rfl
  | int value =>
      intro next hnext
      obtain rfl : c = next := by simpa using hnext
      have hpart := hword rfl
      rw [isWordPart_eq, Bool.or_eq_false_iff] at hpart
      exact hpart.2
  | punct mark =>
      intro hmark next hnext
      obtain rfl : c = next := by simpa using hnext
      exact hgrows hmark
  | _ => trivial

/-- An item that does not run into a token leaves it as it is. -/
theorem stops_of_separable {kind : TokenKind} {next : PrintItem}
    (hnext : next.Readable) (h : separable (.token kind) next = true)
    (behind : List Char) : kind.Stops (next.text.toList ++ behind) := by
  cases next with
  | token other =>
      obtain ⟨c, rest, hspelling, hword, hlong⟩ := head_of_spelled hnext
      simp only [separable, Bool.and_eq_true, Bool.not_eq_true',
        Bool.and_eq_false_imp] at h
      rw [PrintItem.text, hspelling]
      refine TokenKind.stops_cons (fun hkind => ?_) fun hkind => ?_
      · rw [hword, h.1 hkind]
      · by_cases hc : lengthens c = true
        · exact absurd (hlong hc) (by simp [h.2 hkind])
        · simpa using hc
  | space count =>
      cases count with
      | zero => exact absurd h (by simp [separable])
      | succ count =>
          rw [PrintItem.text, String.toList_ofList, List.replicate_succ]
          exact TokenKind.stops_cons (fun _ => by decide) fun _ => by decide
  | newline => exact TokenKind.stops_cons (fun _ => by decide) fun _ => by decide
  | note type => exact absurd hnext id

theorem pieces_replicate_space (count : Nat) (behind : List Char) :
    pieces (List.replicate count ' ' ++ behind) =
      List.replicate count ⟨.blank, [' ']⟩ ++ pieces behind := by
  induction count with
  | zero => rfl
  | succ count ih =>
      rw [List.replicate_succ, List.cons_append, pieces, List.replicate_succ,
        List.cons_append, ← ih]
      rfl

/-- Tidy items are read back one by one. -/
theorem pieces_of_tidy {items : List PrintItem} (h : Tidy items) :
    pieces (items.flatMap fun item => item.text.toList) =
      items.flatMap PrintItem.pieces := by
  induction items with
  | nil => simp [pieces]
  | cons item rest ih =>
      obtain ⟨hreadable, hnext, hrest⟩ := h
      rw [List.flatMap_cons, List.flatMap_cons, ← ih hrest]
      cases item with
      | token kind =>
          refine pieces_spelling hreadable ?_
          cases rest with
          | nil => exact TokenKind.stops_nil kind
          | cons next rest =>
              exact stops_of_separable hrest.1 (hnext next rfl) _
      | space count =>
          rw [PrintItem.text, String.toList_ofList]
          exact pieces_replicate_space count _
      | newline =>
          rw [show PrintItem.newline.text.toList = ['\n'] from rfl, List.cons_append,
            pieces]
          rfl
      | note type => exact absurd hreadable id

theorem toList_printText (items : List PrintItem) :
    (printText items).toList = items.flatMap fun item => item.text.toList := by
  rw [printText, String.toList_join, List.flatMap_map]

theorem kinds_of_tidy {items : List PrintItem} (h : Tidy items) :
    (wordsOf (printText items)).map Token.kind = items.filterMap PrintItem.kind? := by
  rw [kinds_wordsOf, toList_printText, pieces_of_tidy h, List.filterMap_flatMap]
  clear h
  induction items with
  | nil => rfl
  | cons item rest ih =>
      rw [List.flatMap_cons, ih, List.filterMap_cons]
      cases item with
      | space count => simp [PrintItem.pieces, PrintItem.kind?, PieceKind.token?]
      | _ => rfl

/-- The text of tidy items has no issue. -/
theorem issues_of_tidy {items : List PrintItem} (h : Tidy items) :
    (scan (printText items)).issues = [] := by
  rw [issues_scan, toList_printText, pieces_of_tidy h]
  intro piece hpiece
  obtain ⟨item, _, hitem⟩ := List.mem_flatMap.mp hpiece
  cases item with
  | token kind =>
      obtain rfl := List.mem_singleton.mp hitem
      rfl
  | space count =>
      obtain rfl := List.eq_of_mem_replicate hitem
      rfl
  | newline =>
      obtain rfl := List.mem_singleton.mp hitem
      rfl
  | note type => exact absurd hitem List.not_mem_nil

end MiniLang

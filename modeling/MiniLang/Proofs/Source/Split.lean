/-
Texts split at their newlines. Every line of a text has a place in it: what stands in
front of the line ends with a newline, and a newline or nothing is behind it.
-/
import MiniLang.Proofs.Token.Division
import MiniLang.Text.Blank
import Mathlib.Data.List.DropRight
import Mathlib.Data.List.Induction

namespace MiniLang

/-- What a text has behind its last newline. -/
def lastLine (front : List Char) : List Char :=
  (front.reverse.takeWhile (· != '\n')).reverse

/-- What a text has in front of its first newline. -/
def firstLine (behind : List Char) : List Char := behind.takeWhile (· != '\n')

theorem lastLine_append_newline (front : List Char) {line : List Char} (h : '\n' ∉ line) :
    lastLine (front ++ '\n' :: line) = line := by
  have hline : ∀ c ∈ line.reverse, (c != '\n') = true := by
    intro c hc
    rw [bne_iff_ne]
    rintro rfl
    exact h (List.mem_reverse.mp hc)
  rw [lastLine, List.reverse_append, List.reverse_cons, List.append_assoc,
    List.takeWhile_append_of_pos hline]
  simp

theorem lastLine_append_singleton {c : Char} (h : c ≠ '\n') (front : List Char) :
    lastLine (front ++ [c]) = lastLine front ++ [c] := by
  simp [lastLine, h]

theorem firstLine_append {line : List Char} (h : '\n' ∉ line) (behind : List Char) :
    firstLine (line ++ behind) = line ++ firstLine behind := by
  refine List.takeWhile_append_of_pos fun c hc => ?_
  rw [bne_iff_ne]
  rintro rfl
  exact h hc

theorem EndsLine.cases {behind : List Char} (h : EndsLine behind) :
    behind = [] ∨ ∃ more, behind = '\n' :: more := by
  cases behind with
  | nil => exact .inl rfl
  | cons c more => exact .inr ⟨more, by rw [h c rfl]⟩

theorem EndsLine.firstLine {behind : List Char} (h : EndsLine behind) :
    firstLine behind = [] := by
  rcases h.cases with rfl | ⟨more, rfl⟩
  · rfl
  · rfl

theorem splitOn_newline (front back : List Char) :
    (front ++ '\n' :: back).splitOn '\n' = front.splitOn '\n' ++ back.splitOn '\n' := by
  simp only [List.splitOn_eq_splitOnP]
  exact List.splitOnP_append_cons front back rfl

/-- A text is split into one line more than it has newlines. -/
theorem length_splitOn_newline (text : List Char) :
    (text.splitOn '\n').length = text.count '\n' + 1 := by
  induction text with
  | nil => rfl
  | cons c rest ih =>
      by_cases hc : c = '\n'
      · subst hc
        have hsplit := splitOn_newline [] rest
        rw [List.nil_append] at hsplit
        rw [hsplit, List.length_append, ih, List.count_cons_self]
        exact Nat.add_comm _ _
      · rw [List.splitOn_eq_splitOnP] at ih ⊢
        rw [List.splitOnP_cons_eq_if_modifyHead, if_neg (by simpa using hc),
          List.length_modifyHead, ih, List.count_cons_of_ne hc]

/-- The first line of a text stands in front of its first newline. -/
theorem head_splitOn_newline (text : List Char) :
    (text.splitOn '\n')[0]? = some (firstLine text) := by
  induction text with
  | nil => rfl
  | cons c rest ih =>
      rw [List.splitOn_eq_splitOnP] at ih ⊢
      rw [List.splitOnP_cons_eq_if_modifyHead]
      by_cases hc : c = '\n'
      · rw [if_pos (by simpa using hc)]
        simp [firstLine, hc]
      · rw [if_neg (by simpa using hc), List.getElem?_modifyHead, if_pos rfl, ih]
        simp [firstLine, hc]

/-- The line of a place reaches from the newline in front of it to the one behind. -/
theorem getElem?_splitOn_newline (front behind : List Char) :
    ((front ++ behind).splitOn '\n')[front.count '\n']? =
      some (lastLine front ++ firstLine behind) := by
  induction front using List.reverseRecOn generalizing behind with
  | nil => exact head_splitOn_newline behind
  | append_singleton front c ih =>
      rw [List.append_assoc, List.singleton_append, List.count_append]
      by_cases hc : c = '\n'
      · subst hc
        have hindex : front.count '\n' + List.count '\n' ['\n'] =
            (front.splitOn '\n').length := by
          rw [length_splitOn_newline]
          rfl
        rw [splitOn_newline, hindex, List.getElem?_append_right (Nat.le_refl _),
          Nat.sub_self, head_splitOn_newline,
          lastLine_append_newline front List.not_mem_nil, List.nil_append]
      · have hline : firstLine ([c] ++ behind) = [c] ++ firstLine behind :=
          firstLine_append (by simpa using Ne.symm hc) behind
        rw [List.count_singleton, if_neg (by simpa using hc), Nat.add_zero, ih,
          lastLine_append_singleton hc, ← List.singleton_append, hline, List.append_assoc]

/-- How a line lies in a text. In front of it are whole lines, one for each newline there. -/
structure LinePlace (text : List Char) (number : Nat) where
  front : List Char
  line : List Char
  behind : List Char
  whole : text = front ++ (line ++ behind)
  above : front.count '\n' = number
  begins : front = [] ∨ ∃ more, front = more ++ ['\n']
  single : '\n' ∉ line
  ends : EndsLine behind

section LinePlace

theorem LinePlace.exists_of_front {text front rest : List Char} {number : Nat}
    (hwhole : text = front ++ rest) (habove : front.count '\n' = number)
    (hbegins : front = [] ∨ ∃ more, front = more ++ ['\n']) :
    Nonempty (LinePlace text number) := by
  obtain ⟨behind, hbehind, hstop⟩ := takeWhile_splits (· != '\n') rest
  refine ⟨⟨front, firstLine rest, behind, ?_, habove, hbegins,
    newline_notMem_takeWhile rest, endsLine_of_stop hstop⟩⟩
  rw [hwhole, firstLine, ← hbehind]

variable {text : List Char} {number : Nat}

theorem LinePlace.count_eq (place : LinePlace text number) :
    text.count '\n' = number + place.behind.count '\n' := by
  conv_lhs => rw [place.whole]
  rw [List.count_append, List.count_append, place.above,
    List.count_eq_zero.mpr place.single, Nat.zero_add]

/-- Every line of a text has a place in it. The next line begins behind the newline that
ends the line before. -/
theorem exists_linePlace (h : number ≤ text.count '\n') :
    Nonempty (LinePlace text number) := by
  induction number with
  | zero => exact LinePlace.exists_of_front (List.nil_append text).symm rfl (.inl rfl)
  | succ n ih =>
      obtain ⟨place⟩ := ih (Nat.le_of_succ_le h)
      rcases place.ends.cases with hnone | ⟨more, hmore⟩
      · rw [place.count_eq, hnone, List.count_nil] at h
        exact absurd h (Nat.not_succ_le_self n)
      · have hwhole : text = (place.front ++ place.line ++ ['\n']) ++ more := by
          conv_lhs => rw [place.whole, hmore]
          simp only [List.append_assoc, List.singleton_append]
        refine LinePlace.exists_of_front hwhole ?_ (.inr ⟨_, rfl⟩)
        rw [List.count_append, List.count_append, place.above,
          List.count_eq_zero.mpr place.single]
        rfl

/-- A line in its place is the one with its number among the lines of the text. -/
theorem LinePlace.getElem?_splitOn (place : LinePlace text number) :
    (text.splitOn '\n')[number]? = some place.line := by
  have hlast : lastLine place.front = [] := by
    rcases place.begins with hnone | ⟨more, hmore⟩
    · rw [hnone]
      rfl
    · rw [hmore]
      exact lastLine_append_newline more List.not_mem_nil
  have hline := getElem?_splitOn_newline place.front (place.line ++ place.behind)
  rw [firstLine_append place.single, hlast, place.ends.firstLine, List.nil_append,
    List.append_nil, place.above, ← place.whole] at hline
  exact hline

theorem exists_linePlace_of_mem {line : List Char} (h : line ∈ text.splitOn '\n') :
    ∃ number, ∃ place : LinePlace text number, place.line = line := by
  obtain ⟨number, hnumber, hline⟩ := List.getElem_of_mem h
  rw [length_splitOn_newline] at hnumber
  obtain ⟨place⟩ := exists_linePlace (Nat.le_of_lt_succ hnumber)
  refine ⟨number, place, Option.some.inj ?_⟩
  rw [← place.getElem?_splitOn, ← hline, List.getElem?_eq_getElem]

theorem newline_notMem_of_mem_splitOn {line : List Char} (h : line ∈ text.splitOn '\n') :
    '\n' ∉ line := by
  obtain ⟨_, place, rfl⟩ := exists_linePlace_of_mem h
  exact place.single

theorem subset_of_mem_splitOn {line : List Char} (h : line ∈ text.splitOn '\n') :
    line ⊆ text := by
  obtain ⟨_, place, rfl⟩ := exists_linePlace_of_mem h
  intro c hc
  rw [place.whole]
  exact List.mem_append_right _ (List.mem_append_left _ hc)

end LinePlace

/-- What is dropped from the right ends behind a member that stays. -/
theorem dropRightWhile_append_cons {α : Type} {p : α → Bool} {item : α}
    (h : p item = false) (front behind : List α) :
    dropRightWhile p (front ++ item :: behind) =
      front ++ item :: dropRightWhile p behind := by
  have hreverse : (front ++ item :: behind).reverse =
      behind.reverse ++ item :: front.reverse := by simp
  rw [dropRightWhile, hreverse, List.dropWhile_append, dropRightWhile]
  split
  · next hempty =>
      rw [List.isEmpty_iff.mp hempty, List.dropWhile_cons_of_neg (by simp [h])]
      simp
  · simp

/-- What is dropped from the right depends on the test of the members alone. -/
theorem dropRightWhile_congr {α : Type} {p q : α → Bool} {items : List α}
    (h : ∀ item ∈ items, p item = q item) :
    dropRightWhile p items = dropRightWhile q items := by
  induction items using List.reverseRecOn with
  | nil => rfl
  | append_singleton front item ih =>
      have hlast : p item = q item := h item (by simp)
      have hfront := ih fun other hother => h other (List.mem_append_left _ hother)
      calc dropRightWhile p (front ++ [item])
          = if p item then dropRightWhile p front else front ++ [item] :=
            List.rdropWhile_concat p front item
        _ = if q item then dropRightWhile q front else front ++ [item] := by
            rw [hlast, hfront]
        _ = dropRightWhile q (front ++ [item]) :=
            (List.rdropWhile_concat q front item).symm

end MiniLang

/-
Places in a text, and the stretches between two of them.
-/
namespace MiniLang

/-- A place in a text. Lines and columns count from one, and a column counts
characters. -/
structure Position where
  line : Nat
  column : Nat
deriving Repr, DecidableEq

def Position.origin : Position := ⟨1, 1⟩

/-- The place behind a character that stands at `place`. -/
def Position.next (place : Position) (c : Char) : Position :=
  if c = '\n' then ⟨place.line + 1, 1⟩ else ⟨place.line, place.column + 1⟩

/-- The place behind a text that starts at `place`. -/
def Position.after (place : Position) (text : List Char) : Position :=
  text.foldl Position.next place

theorem Position.after_append (place : Position) (front back : List Char) :
    place.after (front ++ back) = (place.after front).after back :=
  List.foldl_append

/-- Whether a place comes before another one. -/
def Position.Before (place other : Position) : Prop :=
  place.line < other.line ∨ place.line = other.line ∧ place.column < other.column

theorem Position.Before.trans {place middle other : Position}
    (h : place.Before middle) (hmore : middle.Before other) : place.Before other := by
  unfold Position.Before at h hmore ⊢
  omega

theorem Position.Before.ne {place other : Position} (h : place.Before other) :
    place ≠ other := by
  rintro rfl
  unfold Position.Before at h
  omega

theorem Position.before_next (place : Position) (c : Char) :
    place.Before (place.next c) := by
  unfold Position.Before Position.next
  split
  · exact .inl (Nat.lt_succ_self place.line)
  · exact .inr ⟨rfl, Nat.lt_succ_self place.column⟩

/-- A text that is not empty ends behind the place where it starts. -/
theorem Position.before_after (place : Position) {text : List Char} (h : text ≠ []) :
    place.Before (place.after text) := by
  induction text generalizing place with
  | nil => exact absurd rfl h
  | cons c rest ih =>
      cases rest with
      | nil => exact place.before_next c
      | cons next rest => exact (place.before_next c).trans (ih _ (List.cons_ne_nil _ _))

/-- A place reads `line:column`. -/
def Position.render (place : Position) : String :=
  toString place.line ++ ":" ++ toString place.column

/-- A stretch of text, from its first character to its last one. -/
structure Span where
  start : Position
  stop : Position
deriving Repr, DecidableEq

def Span.point (place : Position) : Span := ⟨place, place⟩

/-- The stretch of `length` characters of one line. It covers at least the place
where it starts. -/
def Span.ofLength (start : Position) (length : Nat) : Span :=
  ⟨start, ⟨start.line, start.column + max length 1 - 1⟩⟩

/-- The number of columns that a stretch covers when it lies on one line; one
otherwise. -/
def Span.width (span : Span) : Nat :=
  if span.start.line = span.stop.line ∧ span.start.column ≤ span.stop.column then
    span.stop.column - span.start.column + 1
  else 1

theorem Span.width_ofLength (start : Position) (length : Nat) :
    (Span.ofLength start length).width = max length 1 := by
  simp only [Span.width, Span.ofLength, true_and]
  split <;> omega

/-- A stretch is shown by the place where it starts. -/
def Span.render (span : Span) : String := span.start.render

end MiniLang

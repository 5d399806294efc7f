/-
The symbol table by the history of its calls. A frame has the number of the call that
opened it, and it is live until it is closed. What the table answers is told by the
declarations that were made into the frames that are live.
-/
import MiniLang.Scope.Table
import Mathlib.Data.List.Forall2
import Mathlib.Data.List.Induction

namespace MiniLang

/-- A call of an operation of the symbol table. -/
inductive TableCall where
  | push
  | pop
  | declare (name : String) (symbol : Symbol)
  | lookupInnermost (name : String)
  | lookup (name : String)
deriving Repr, DecidableEq

inductive TableAnswer where
  | done
  | found (symbol : Option Symbol)
  | refused (reason : TableError)
deriving Repr, DecidableEq

/-- The answer to a call that may change a table, and the table behind it. A refusal
leaves the table as it was. -/
def SymbolTable.commit (table : SymbolTable) :
    Except TableError SymbolTable → TableAnswer × SymbolTable
  | .ok after => (.done, after)
  | .error reason => (.refused reason, table)

/-- What a lookup that may be refused is answered. -/
def TableAnswer.ofLookup : Except TableError (Option Symbol) → TableAnswer
  | .ok symbol => .found symbol
  | .error reason => .refused reason

/-- The answer to a call, and the table behind it. -/
def SymbolTable.perform (table : SymbolTable) : TableCall → TableAnswer × SymbolTable
  | .push => (.done, table.push)
  | .pop => table.commit table.pop
  | .declare name symbol => table.commit (table.declare name symbol)
  | .lookupInnermost name => (.ofLookup (table.lookupInnermost name), table)
  | .lookup name => (.found (table.lookup name), table)

/-- The table behind calls that start with a new one. -/
def tableAfter (calls : List TableCall) : SymbolTable :=
  calls.foldl (fun table call => (table.perform call).2) .new

/-- What a call is answered behind other calls. -/
def answerAfter (calls : List TableCall) (call : TableCall) : TableAnswer :=
  ((tableAfter calls).perform call).1

/-- The frames that are live behind one more call, which has a number. -/
def TableCall.track (number : Nat) (frames : List Nat) : TableCall → List Nat
  | .push => number :: frames
  | .pop => frames.tail
  | _ => frames

/-- The frames that are live behind some calls, the innermost one first. A frame is known
by the number of the call that opened it, and the frame of a new table has number zero. -/
def liveFrames (calls : List TableCall) : List Nat :=
  (calls.zipIdx 1).foldl (fun frames call => call.1.track call.2 frames) [0]

/-- Whether a name was declared into a frame: at some time the frame was the innermost
one, and the declaration was not refused. -/
def DeclaredInto (calls : List TableCall) (frame : Nat) (name : String)
    (symbol : Symbol) : Prop :=
  ∃ front back, calls = front ++ .declare name symbol :: back ∧
    (liveFrames front).head? = some frame ∧
    answerAfter front (.declare name symbol) = .done

/-- Whether a live frame decides what a name stands for: the name was declared into it,
and into no live frame inside it. -/
def Decides (calls : List TableCall) (frame : Nat) (name : String) (symbol : Symbol) :
    Prop :=
  ∃ inner outer, liveFrames calls = inner ++ frame :: outer ∧
    (∀ other ∈ inner, ∀ taken, ¬ DeclaredInto calls other name taken) ∧
    DeclaredInto calls frame name symbol

/-- Whether a table answers by its history, behind some calls. -/
structure AnswersByHistory (calls : List TableCall) : Prop where
  depth : (tableAfter calls).depth = (liveFrames calls).length
  push : answerAfter calls .push = .done
  pop : answerAfter calls .pop =
    if liveFrames calls = [] then .refused .noFrame else .done
  innermost_noFrame : ∀ name,
    answerAfter calls (.lookupInnermost name) = .refused .noFrame ↔ liveFrames calls = []
  innermost_found : ∀ name frame, (liveFrames calls).head? = some frame →
    ∃ found, answerAfter calls (.lookupInnermost name) = .found found ∧
      ∀ symbol, found = some symbol ↔ DeclaredInto calls frame name symbol
  lookup_found : ∀ name,
    ∃ found, answerAfter calls (.lookup name) = .found found ∧
      ∀ symbol, found = some symbol ↔ ∃ frame, Decides calls frame name symbol
  declare_noFrame : ∀ name symbol,
    answerAfter calls (.declare name symbol) = .refused .noFrame ↔ liveFrames calls = []
  declare_absentName : ∀ name symbol,
    answerAfter calls (.declare name symbol) = .refused .absentName ↔
      liveFrames calls ≠ [] ∧ (name = "" ∨ symbol.name = "")
  declare_duplicateName : ∀ name symbol other,
    answerAfter calls (.declare name symbol) = .refused (.duplicateName other) ↔
      other = name ∧ name ≠ "" ∧ symbol.name ≠ "" ∧
        ∃ frame taken, (liveFrames calls).head? = some frame ∧
          DeclaredInto calls frame name taken
  declare_done : ∀ name symbol,
    answerAfter calls (.declare name symbol) = .done ↔
      name ≠ "" ∧ symbol.name ≠ "" ∧ ∃ frame, (liveFrames calls).head? = some frame ∧
        ∀ taken, ¬ DeclaredInto calls frame name taken
  refused : ∀ call reason, answerAfter calls call = .refused reason →
    ∀ more later, answerAfter (calls ++ call :: more) later =
      answerAfter (calls ++ more) later
  balanced : ∀ between,
    (liveFrames (calls ++ .push :: between)).head? = some (calls.length + 1) →
      tableAfter (calls ++ .push :: between ++ [.pop]) = tableAfter calls

/-- A call that is refused leaves the table as it was. -/
theorem SymbolTable.perform_refused {table : SymbolTable} {call : TableCall}
    {reason : TableError} (h : (table.perform call).1 = .refused reason) :
    (table.perform call).2 = table := by
  have hcommit : ∀ outcome, (table.commit outcome).1 = .refused reason →
      (table.commit outcome).2 = table := by
    intro outcome hrefused
    cases outcome with
    | ok after => cases hrefused
    | error reason => rfl
  cases call with
  | push => cases h
  | pop => exact hcommit _ h
  | declare name symbol => exact hcommit _ h
  | lookupInnermost name => rfl
  | lookup name => rfl

/-- What a declaration does to a table: it is refused for the first reason that holds, or
the innermost frame takes it in. -/
theorem SymbolTable.perform_declare (table : SymbolTable) (name : String)
    (symbol : Symbol) :
    table.frames = [] ∧
        table.perform (.declare name symbol) = (.refused .noFrame, table) ∨
      ∃ frame outer, table.frames = frame :: outer ∧
        ((name = "" ∨ symbol.name = "") ∧
            table.perform (.declare name symbol) = (.refused .absentName, table) ∨
          (name ≠ "" ∧ symbol.name ≠ "") ∧ (∃ taken, frame.lookup name = some taken) ∧
            table.perform (.declare name symbol) =
              (.refused (.duplicateName name), table) ∨
          (name ≠ "" ∧ symbol.name ≠ "") ∧ frame.lookup name = none ∧
            table.perform (.declare name symbol) =
              (.done, ⟨((name, symbol) :: frame) :: outer⟩)) := by
  obtain ⟨frames⟩ := table
  cases frames with
  | nil => exact .inl ⟨rfl, rfl⟩
  | cons frame outer =>
      refine .inr ⟨frame, outer, rfl, ?_⟩
      simp only [SymbolTable.perform, SymbolTable.declare]
      by_cases habsent : name = "" ∨ symbol.name = ""
      · rw [if_pos habsent]
        exact .inl ⟨habsent, rfl⟩
      · rw [if_neg habsent]
        have hnamed : name ≠ "" ∧ symbol.name ≠ "" := not_or.mp habsent
        cases hfound : frame.lookup name with
        | some taken => exact .inr (.inl ⟨hnamed, ⟨taken, rfl⟩, rfl⟩)
        | none => exact .inr (.inr ⟨hnamed, rfl, rfl⟩)

section History

variable {calls : List TableCall} {call : TableCall} {number : Nat} {name : String}
  {symbol : Symbol}

theorem tableAfter_append_singleton (calls : List TableCall) (call : TableCall) :
    tableAfter (calls ++ [call]) = ((tableAfter calls).perform call).2 := by
  rw [tableAfter, List.foldl_append]
  rfl

theorem liveFrames_append_singleton (calls : List TableCall) (call : TableCall) :
    liveFrames (calls ++ [call]) = call.track (calls.length + 1) (liveFrames calls) := by
  rw [liveFrames, List.zipIdx_append, List.foldl_append, Nat.add_comm calls.length 1]
  rfl

/-- Frames that were opened later lie inside. -/
theorem liveFrames_descend (calls : List TableCall) :
    (∀ number ∈ liveFrames calls, number ≤ calls.length) ∧
      (liveFrames calls).Pairwise (· > ·) := by
  induction calls using List.reverseRecOn with
  | nil => decide
  | append_singleton calls call ih =>
      obtain ⟨hle, hdescend⟩ := ih
      rw [liveFrames_append_singleton, List.length_append, List.length_singleton]
      have hle' : ∀ number ∈ liveFrames calls, number ≤ calls.length + 1 :=
        fun number hnumber => Nat.le_succ_of_le (hle number hnumber)
      cases call with
      | push =>
          constructor
          · exact List.forall_mem_cons.mpr ⟨Nat.le_refl _, hle'⟩
          · exact List.pairwise_cons.mpr
              ⟨fun number hnumber => Nat.lt_succ_of_le (hle number hnumber), hdescend⟩
      | pop =>
          constructor
          · exact fun number hnumber => hle' number (List.mem_of_mem_tail hnumber)
          · exact hdescend.tail
      | _ => exact ⟨hle', hdescend⟩

/-- Nothing is declared into a frame before it is opened. -/
theorem DeclaredInto.le (h : DeclaredInto calls number name symbol) :
    number ≤ calls.length := by
  obtain ⟨front, back, rfl, hlive, _⟩ := h
  have hle := (liveFrames_descend front).1 number (List.mem_of_head? hlive)
  rw [List.length_append]
  omega

/-- A declaration into a frame came before the last call, or it is the last call. -/
theorem declaredInto_append_singleton :
    DeclaredInto (calls ++ [call]) number name symbol ↔
      DeclaredInto calls number name symbol ∨
        call = .declare name symbol ∧ (liveFrames calls).head? = some number ∧
          answerAfter calls call = .done := by
  constructor
  · rintro ⟨front, back, hcalls, hlive, hdone⟩
    rcases List.eq_nil_or_concat back with rfl | ⟨more, last, rfl⟩
    · obtain ⟨rfl, hcall⟩ := List.append_inj' hcalls rfl
      obtain rfl : call = .declare name symbol := by simpa using hcall
      exact .inr ⟨rfl, hlive, hdone⟩
    · rw [List.concat_eq_append, ← List.cons_append, ← List.append_assoc] at hcalls
      obtain ⟨rfl, _⟩ := List.append_inj' hcalls rfl
      exact .inl ⟨front, more, rfl, hlive, hdone⟩
  · rintro (⟨front, back, rfl, hlive, hdone⟩ | ⟨rfl, hlive, hdone⟩)
    · exact ⟨front, back ++ [call], by simp, hlive, hdone⟩
    · exact ⟨calls, [], rfl, hlive, hdone⟩

/-- Whether a frame holds what was declared into the frame with a number. -/
def Frame.Holds (calls : List TableCall) (number : Nat) (frame : Frame) : Prop :=
  ∀ name symbol, frame.lookup name = some symbol ↔ DeclaredInto calls number name symbol

/-- Whether frames are those with the given numbers, and hold what was declared. -/
def Recorded (calls : List TableCall) (numbers : List Nat) (frames : List Frame) : Prop :=
  List.Forall₂ (Frame.Holds calls) numbers frames

/-- A call that declares nothing into frames leaves them as they are. -/
theorem Recorded.behind {numbers : List Nat} {frames : List Frame}
    (h : Recorded calls numbers frames)
    (hcall : ∀ number ∈ numbers, (liveFrames calls).head? = some number →
      ∀ name symbol, call = .declare name symbol → answerAfter calls call ≠ .done) :
    Recorded (calls ++ [call]) numbers frames := by
  have hboth := (List.forall₂_and_left numbers frames).mpr ⟨hcall, h⟩
  refine hboth.imp ?_
  rintro number frame ⟨hquiet, hholds⟩ name symbol
  rw [hholds name symbol, declaredInto_append_singleton, or_iff_left]
  rintro ⟨hdeclare, hlive, hdone⟩
  exact hquiet hlive name symbol hdeclare hdone

/-- A frame that has just been opened holds nothing. -/
theorem recorded_push {frames : List Frame} (h : Recorded calls (liveFrames calls) frames) :
    Recorded (calls ++ [.push]) (liveFrames (calls ++ [.push])) ([] :: frames) := by
  have hempty : Frame.Holds (calls ++ [.push]) (calls.length + 1) [] := by
    intro name symbol
    constructor
    · exact nofun
    · rw [declaredInto_append_singleton]
      rintro (hdeclared | ⟨hcall, _⟩)
      · exact absurd hdeclared.le (Nat.not_succ_le_self _)
      · cases hcall
  rw [liveFrames_append_singleton]
  exact .cons hempty (h.behind fun _ _ _ _ _ hcall => nomatch hcall)

theorem recorded_pop {frames : List Frame} (h : Recorded calls (liveFrames calls) frames) :
    Recorded (calls ++ [.pop]) (liveFrames (calls ++ [.pop])) frames.tail := by
  have hbehind : Recorded (calls ++ [.pop]) (liveFrames calls) frames :=
    h.behind fun _ _ _ _ _ hcall => nomatch hcall
  rw [liveFrames_append_singleton]
  change Recorded _ (liveFrames calls).tail _
  generalize liveFrames calls = numbers at hbehind ⊢
  cases hbehind with
  | nil => exact .nil
  | cons _ hrest => exact hrest

/-- A declaration that is taken in changes the innermost frame alone. -/
theorem recorded_declare {frame : Frame} {outer : List Frame}
    (h : Recorded calls (liveFrames calls) (frame :: outer))
    (hfree : frame.lookup name = none)
    (hdone : answerAfter calls (.declare name symbol) = .done) :
    Recorded (calls ++ [.declare name symbol])
      (liveFrames (calls ++ [.declare name symbol]))
      (((name, symbol) :: frame) :: outer) := by
  rw [liveFrames_append_singleton]
  change Recorded _ (liveFrames calls) _
  have hdescend := (liveFrames_descend calls).2
  generalize hlive : liveFrames calls = numbers at h hdescend ⊢
  cases h with
  | @cons number _ rest _ hholds hrest =>
      have hothers : ∀ other ∈ rest, number > other := (List.pairwise_cons.mp hdescend).1
      have hbehind : Recorded (calls ++ [.declare name symbol]) rest outer := by
        refine Recorded.behind hrest ?_
        intro other hother hhead
        obtain rfl : number = other := by simpa [hlive] using hhead
        exact absurd (hothers _ hother) (Nat.lt_irrefl _)
      refine .cons ?_ hbehind
      intro other taken
      rw [declaredInto_append_singleton, ← hholds other taken, List.lookup_cons]
      by_cases hname : other = name
      · subst hname
        simp [hfree, hlive, hdone]
      · have hcall : TableCall.declare name symbol ≠ .declare other taken := by
          rintro ⟨⟩
          exact hname rfl
        have hother : (other == name) = false := beq_eq_false_iff_ne.mpr hname
        simp [hother, hcall]

/-- The frames of a table are those that are live, and they hold what was declared. -/
theorem recorded_tableAfter (calls : List TableCall) :
    Recorded calls (liveFrames calls) (tableAfter calls).frames := by
  induction calls using List.reverseRecOn with
  | nil =>
      refine .cons ?_ .nil
      intro name symbol
      constructor
      · exact nofun
      · rintro ⟨front, back, hcalls, _⟩
        exact absurd hcalls (by simp)
  | append_singleton calls call ih =>
      rw [tableAfter_append_singleton]
      have hquiet : (∀ name symbol, call = .declare name symbol →
          answerAfter calls call ≠ .done) →
          Recorded (calls ++ [call]) (liveFrames calls) (tableAfter calls).frames :=
        fun h => ih.behind fun _ _ _ => h
      cases call with
      | push => exact recorded_push ih
      | pop =>
          have htail : ((tableAfter calls).perform .pop).2.frames =
              (tableAfter calls).frames.tail := by
            generalize tableAfter calls = table
            obtain ⟨_ | ⟨frame, outer⟩⟩ := table <;> rfl
          rw [htail]
          exact recorded_pop ih
      | declare name symbol =>
          rcases (tableAfter calls).perform_declare name symbol with
            ⟨_, hperform⟩ | ⟨frame, outer, hframes, ⟨_, hperform⟩ | ⟨_, _, hperform⟩ |
              ⟨_, hfree, hperform⟩⟩
          case inr.inr.inr =>
            rw [hperform]
            rw [hframes] at ih
            refine recorded_declare ih hfree ?_
            rw [answerAfter, hperform]
          all_goals
            -- it was refused, so nothing was declared
            rw [hperform, liveFrames_append_singleton]
            refine hquiet fun _ _ _ hdone => ?_
            rw [answerAfter, hperform] at hdone
            cases hdone
      | lookupInnermost name | lookup name =>
          rw [liveFrames_append_singleton]
          exact hquiet fun _ _ hcall => nomatch hcall

/-- The innermost frame that holds a name is the one that decides. -/
theorem Recorded.findSome? {numbers : List Nat} {frames : List Frame}
    (h : Recorded calls numbers frames) :
    frames.findSome? (List.lookup name) = some symbol ↔
      ∃ number inner outer, numbers = inner ++ number :: outer ∧
        (∀ other ∈ inner, ∀ taken, ¬ DeclaredInto calls other name taken) ∧
        DeclaredInto calls number name symbol := by
  induction h with
  | nil => simp
  | @cons first frame rest _ hholds _ ih =>
      rw [List.findSome?_cons]
      cases hfound : frame.lookup name with
      | some taken =>
          have htaken := (hholds name taken).mp hfound
          constructor
          · rintro ⟨⟩
            exact ⟨first, [], rest, rfl, List.forall_mem_nil _, htaken⟩
          · rintro ⟨number, inner, outer, hnumbers, hinner, hsymbol⟩
            cases inner with
            | nil =>
                obtain ⟨rfl, rfl⟩ := List.cons.inj hnumbers
                rw [← hholds name symbol, hfound] at hsymbol
                exact hsymbol
            | cons other inner =>
                obtain ⟨rfl, rfl⟩ := List.cons.inj hnumbers
                exact absurd htaken (hinner _ List.mem_cons_self taken)
      | none =>
          have hfree : ∀ taken, ¬ DeclaredInto calls first name taken := by
            intro taken hdeclared
            rw [← hholds name taken, hfound] at hdeclared
            cases hdeclared
          rw [ih]
          constructor
          · rintro ⟨number, inner, outer, rfl, hinner, hsymbol⟩
            exact ⟨number, first :: inner, outer, rfl,
              List.forall_mem_cons.mpr ⟨hfree, hinner⟩, hsymbol⟩
          · rintro ⟨number, inner, outer, hnumbers, hinner, hsymbol⟩
            cases inner with
            | nil =>
                obtain ⟨rfl, rfl⟩ := List.cons.inj hnumbers
                exact absurd hsymbol (hfree symbol)
            | cons other inner =>
                obtain ⟨rfl, rfl⟩ := List.cons.inj hnumbers
                exact ⟨number, inner, outer, rfl, (List.forall_mem_cons.mp hinner).2,
                  hsymbol⟩

/-- As long as a frame is live, all frames outside it stay as they were when it was
opened. -/
theorem frames_of_live (calls between : List TableCall)
    (h : calls.length + 1 ∈ liveFrames (calls ++ .push :: between)) :
    ∃ inner shadow frame,
      liveFrames (calls ++ .push :: between) =
        inner ++ (calls.length + 1) :: liveFrames calls ∧
      (tableAfter (calls ++ .push :: between)).frames =
        shadow ++ frame :: (tableAfter calls).frames ∧
      inner.length = shadow.length := by
  induction between using List.reverseRecOn with
  | nil =>
      refine ⟨[], [], [], ?_, ?_, rfl⟩
      · exact liveFrames_append_singleton calls .push
      · rw [tableAfter_append_singleton]
        rfl
  | append_singleton between call ih =>
      rw [← List.cons_append, ← List.append_assoc] at h ⊢
      rw [liveFrames_append_singleton] at h ⊢
      rw [tableAfter_append_singleton]
      have hlater : (calls ++ .push :: between).length + 1 ≠ calls.length + 1 := by
        rw [List.length_append, List.length_cons]
        omega
      generalize calls ++ .push :: between = before at h ih hlater ⊢
      have hlive : calls.length + 1 ∈ liveFrames before := by
        cases call with
        | push => exact List.mem_of_ne_of_mem hlater.symm h
        | pop => exact List.mem_of_mem_tail h
        | _ => exact h
      obtain ⟨inner, shadow, frame, hnumbers, hframes, hlength⟩ := ih hlive
      cases call with
      | push =>
          refine ⟨(before.length + 1) :: inner, [] :: shadow, frame, ?_, ?_, ?_⟩
          · rw [TableCall.track, hnumbers, List.cons_append]
          · rw [SymbolTable.perform, SymbolTable.push, hframes, List.cons_append]
          · rw [List.length_cons, List.length_cons, hlength]
      | pop =>
          rw [TableCall.track, hnumbers] at h
          cases inner with
          | nil =>
              exact absurd ((liveFrames_descend calls).1 _ h) (Nat.not_succ_le_self _)
          | cons number inner =>
              cases shadow with
              | nil => cases hlength
              | cons other shadow =>
                  refine ⟨inner, shadow, frame, ?_, ?_, Nat.succ.inj hlength⟩
                  · rw [TableCall.track, hnumbers]
                    rfl
                  · rw [SymbolTable.perform, SymbolTable.pop, hframes]
                    rfl
      | declare name symbol =>
          rcases (tableAfter before).perform_declare name symbol with
            ⟨_, hperform⟩ | ⟨innermost, outer, hopen, ⟨_, hperform⟩ | ⟨_, _, hperform⟩ |
              ⟨_, _, hperform⟩⟩
          case inr.inr.inr =>
            rw [hperform]
            rw [hframes] at hopen
            cases shadow with
            | nil =>
                obtain ⟨rfl, rfl⟩ := List.cons.inj hopen
                exact ⟨inner, [], _, hnumbers, rfl, hlength⟩
            | cons other shadow =>
                obtain ⟨rfl, rfl⟩ := List.cons.inj hopen
                exact ⟨inner, _ :: shadow, frame, hnumbers, rfl, hlength⟩
          all_goals
            rw [hperform]
            exact ⟨inner, shadow, frame, hnumbers, hframes, hlength⟩
      | lookupInnermost name | lookup name =>
          exact ⟨inner, shadow, frame, hnumbers, hframes, hlength⟩

/-- The pop that closes a frame leaves the table as it was before the frame was opened. -/
theorem tableAfter_balanced {calls between : List TableCall}
    (h : (liveFrames (calls ++ .push :: between)).head? = some (calls.length + 1)) :
    tableAfter (calls ++ .push :: between ++ [.pop]) = tableAfter calls := by
  obtain ⟨inner, shadow, frame, hnumbers, hframes, hlength⟩ :=
    frames_of_live calls between (List.mem_of_head? h)
  have hinner : inner = [] := by
    cases inner with
    | nil => rfl
    | cons number inner =>
        -- the frame would be live twice
        have hdescend := (liveFrames_descend (calls ++ .push :: between)).2
        rw [hnumbers] at h hdescend
        obtain rfl : number = calls.length + 1 := by simpa using h
        have hbelow := (List.pairwise_cons.mp hdescend).1 (calls.length + 1) (by simp)
        exact absurd hbelow (Nat.lt_irrefl _)
  obtain rfl : shadow = [] := by
    rw [hinner] at hlength
    exact List.length_eq_zero_iff.mp hlength.symm
  rw [tableAfter_append_singleton, SymbolTable.perform, SymbolTable.pop, hframes]
  rfl

theorem liveFrames_ne_nil {number : Nat} (h : (liveFrames calls).head? = some number) :
    liveFrames calls ≠ [] := by
  intro hnil
  rw [hnil] at h
  cases h

/-- The innermost frame of a table is the innermost live one. -/
theorem frames_of_head? {number : Nat} (h : (liveFrames calls).head? = some number) :
    ∃ frame outer, (tableAfter calls).frames = frame :: outer ∧
      Frame.Holds calls number frame := by
  have hrecorded := recorded_tableAfter calls
  generalize (tableAfter calls).frames = frames at hrecorded ⊢
  generalize liveFrames calls = numbers at h hrecorded
  cases hrecorded with
  | nil => cases h
  | @cons first frame _ outer hholds _ =>
      obtain rfl : first = number := by simpa using h
      exact ⟨frame, outer, rfl, hholds⟩

theorem frames_of_liveFrames_nil (h : liveFrames calls = []) :
    (tableAfter calls).frames = [] := by
  have hlength := (recorded_tableAfter calls).length_eq
  rw [h] at hlength
  exact List.length_eq_zero_iff.mp hlength.symm

/-- Some frame is live and one of them is the innermost one, or none is. -/
theorem liveFrames_cases (calls : List TableCall) :
    liveFrames calls = [] ∨ ∃ number, (liveFrames calls).head? = some number := by
  cases liveFrames calls with
  | nil => exact .inl rfl
  | cons number outer => exact .inr ⟨number, rfl⟩

theorem answerAfter_pop (calls : List TableCall) :
    answerAfter calls .pop =
      if liveFrames calls = [] then .refused .noFrame else .done := by
  rcases liveFrames_cases calls with hnone | ⟨number, hlive⟩
  · rw [if_pos hnone, answerAfter, SymbolTable.perform, SymbolTable.pop,
      frames_of_liveFrames_nil hnone]
    rfl
  · obtain ⟨frame, outer, hframes, _⟩ := frames_of_head? hlive
    rw [if_neg (liveFrames_ne_nil hlive), answerAfter, SymbolTable.perform,
      SymbolTable.pop, hframes]
    rfl

theorem answerAfter_lookupInnermost_nil (h : liveFrames calls = []) (name : String) :
    answerAfter calls (.lookupInnermost name) = .refused .noFrame := by
  rw [answerAfter, SymbolTable.perform, SymbolTable.lookupInnermost,
    frames_of_liveFrames_nil h]
  rfl

theorem answerAfter_lookupInnermost (h : (liveFrames calls).head? = some number)
    (name : String) :
    ∃ found, answerAfter calls (.lookupInnermost name) = .found found ∧
      ∀ symbol, found = some symbol ↔ DeclaredInto calls number name symbol := by
  obtain ⟨frame, outer, hframes, hholds⟩ := frames_of_head? h
  refine ⟨frame.lookup name, ?_, hholds name⟩
  rw [answerAfter, SymbolTable.perform, SymbolTable.lookupInnermost, hframes]
  rfl

/-- What a declaration is answered: the first refusal that has a reason, or none. -/
theorem answerAfter_declare (calls : List TableCall) (name : String) (symbol : Symbol) :
    liveFrames calls = [] ∧
        answerAfter calls (.declare name symbol) = .refused .noFrame ∨
      ∃ number, (liveFrames calls).head? = some number ∧
        ((name = "" ∨ symbol.name = "") ∧
            answerAfter calls (.declare name symbol) = .refused .absentName ∨
          (name ≠ "" ∧ symbol.name ≠ "") ∧
            (∃ taken, DeclaredInto calls number name taken) ∧
            answerAfter calls (.declare name symbol) = .refused (.duplicateName name) ∨
          (name ≠ "" ∧ symbol.name ≠ "") ∧
            (¬ ∃ taken, DeclaredInto calls number name taken) ∧
            answerAfter calls (.declare name symbol) = .done) := by
  unfold answerAfter
  rcases liveFrames_cases calls with hnone | ⟨number, hlive⟩
  · left
    refine ⟨hnone, ?_⟩
    rw [SymbolTable.perform, SymbolTable.declare, frames_of_liveFrames_nil hnone]
    rfl
  · obtain ⟨frame, outer, hframes, hholds⟩ := frames_of_head? hlive
    refine .inr ⟨number, hlive, ?_⟩
    rcases (tableAfter calls).perform_declare name symbol with
      ⟨hnil, _⟩ | ⟨other, _, hopen, ⟨habsent, h⟩ | ⟨hnamed, ⟨taken, htaken⟩, h⟩ |
        ⟨hnamed, hfree, h⟩⟩
    · rw [hnil] at hframes
      cases hframes
    · rw [h]
      exact .inl ⟨habsent, rfl⟩
    · rw [h]
      obtain ⟨rfl, rfl⟩ := List.cons.inj (hframes.symm.trans hopen)
      exact .inr (.inl ⟨hnamed, ⟨taken, (hholds name taken).mp htaken⟩, rfl⟩)
    · rw [h]
      obtain ⟨rfl, rfl⟩ := List.cons.inj (hframes.symm.trans hopen)
      refine .inr (.inr ⟨hnamed, ?_, rfl⟩)
      rintro ⟨taken, hdeclared⟩
      rw [← hholds name taken, hfree] at hdeclared
      cases hdeclared

/-- A call that is refused makes no difference to any later answer. -/
theorem answerAfter_refused {reason : TableError}
    (h : answerAfter calls call = .refused reason) (more : List TableCall)
    (later : TableCall) :
    answerAfter (calls ++ call :: more) later = answerAfter (calls ++ more) later := by
  have htable : tableAfter (calls ++ call :: more) = tableAfter (calls ++ more) := by
    rw [tableAfter, tableAfter, List.foldl_append, List.foldl_append, List.foldl_cons]
    exact congrArg (fun table => more.foldl _ table) (SymbolTable.perform_refused h)
  rw [answerAfter, answerAfter, htable]

/-- The symbol table answers by its history, behind any calls. -/
theorem SymbolTable.answers_by_history (calls : List TableCall) : AnswersByHistory calls where
  depth := (recorded_tableAfter calls).length_eq.symm
  push := rfl
  pop := answerAfter_pop calls
  innermost_noFrame name := by
    constructor
    · intro h
      rcases liveFrames_cases calls with hnone | ⟨number, hlive⟩
      · exact hnone
      · obtain ⟨found, hfound, _⟩ := answerAfter_lookupInnermost hlive name
        rw [hfound] at h
        cases h
    · exact fun hnone => answerAfter_lookupInnermost_nil hnone name
  innermost_found name number hlive := answerAfter_lookupInnermost hlive name
  lookup_found name := by
    refine ⟨(tableAfter calls).lookup name, rfl, fun symbol => ?_⟩
    exact (recorded_tableAfter calls).findSome?
  declare_noFrame name symbol := by
    rcases answerAfter_declare calls name symbol with
      ⟨hlive, h⟩ | ⟨number, hlive, ⟨_, h⟩ | ⟨_, _, h⟩ | ⟨_, _, h⟩⟩
    · simp [h, hlive]
    all_goals simp [h, liveFrames_ne_nil hlive]
  declare_absentName name symbol := by
    rcases answerAfter_declare calls name symbol with
      ⟨hlive, h⟩ | ⟨number, hlive, ⟨habsent, h⟩ | ⟨hnamed, _, h⟩ | ⟨hnamed, _, h⟩⟩
    · simp [h, hlive]
    · simp [h, liveFrames_ne_nil hlive, habsent]
    all_goals simp [h, hnamed]
  declare_duplicateName name symbol other := by
    rcases answerAfter_declare calls name symbol with
      ⟨hlive, h⟩ | ⟨number, hlive, ⟨habsent, h⟩ | ⟨hnamed, htaken, h⟩ | ⟨_, hfree, h⟩⟩
    · simp [h, hlive]
    · rw [h]
      rcases habsent with rfl | habsent <;> simp [*]
    · simp [h, hlive, hnamed, htaken, eq_comm]
    · simp [h, hlive, not_exists.mp hfree]
  declare_done name symbol := by
    rcases answerAfter_declare calls name symbol with
      ⟨hlive, h⟩ | ⟨number, hlive, ⟨habsent, h⟩ | ⟨_, ⟨taken, htaken⟩, h⟩ |
        ⟨hnamed, hfree, h⟩⟩
    · simp [h, hlive]
    · rw [h]
      rcases habsent with rfl | habsent <;> simp [*]
    · simp only [h, hlive, reduceCtorEq, false_iff, Option.some.injEq]
      rintro ⟨_, _, _, rfl, hfree⟩
      exact hfree taken htaken
    · simp [h, hlive, hnamed, not_exists.mp hfree]
  refused call reason h more later := answerAfter_refused h more later
  balanced between h := tableAfter_balanced h

end History

end MiniLang

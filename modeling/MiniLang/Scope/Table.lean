/-
The symbol table: a stack of frames, one for each open scope.
-/
import MiniLang.Symbol

namespace MiniLang

/-- What an operation of the symbol table may refuse. -/
inductive TableError where
  | noFrame
  | absentName
  | duplicateName (name : String)
deriving Repr, DecidableEq

def TableError.message : TableError → String
  | .noFrame => "symbol table has no scope frame"
  | .absentName => "declaration with an absent name or symbol"
  | .duplicateName name =>
      quoted name ++ " is already declared in the innermost scope"

/-- The declarations of one scope, the latest one first. -/
abbrev Frame := List (String × Symbol)

/-- A stack of frames, the innermost one first. -/
structure SymbolTable where
  frames : List Frame
deriving Repr, DecidableEq

/-- A table with a single frame that declares nothing. -/
def SymbolTable.new : SymbolTable := ⟨[[]]⟩

def SymbolTable.push (table : SymbolTable) : SymbolTable := ⟨[] :: table.frames⟩

def SymbolTable.pop (table : SymbolTable) : Except TableError SymbolTable :=
  match table.frames with
  | [] => .error .noFrame
  | _ :: outer => .ok ⟨outer⟩

def SymbolTable.depth (table : SymbolTable) : Nat := table.frames.length

def SymbolTable.isEmpty (table : SymbolTable) : Bool := table.frames.isEmpty

/-- Declare a name in the innermost scope. Outer scopes may declare it too. -/
def SymbolTable.declare (table : SymbolTable) (name : String) (symbol : Symbol) :
    Except TableError SymbolTable :=
  match table.frames with
  | [] => .error .noFrame
  | frame :: outer =>
      if name = "" ∨ symbol.name = "" then .error .absentName
      else if (frame.lookup name).isSome then .error (.duplicateName name)
      else .ok ⟨((name, symbol) :: frame) :: outer⟩

/-- What a name stands for in the innermost scope alone. -/
def SymbolTable.lookupInnermost (table : SymbolTable) (name : String) :
    Except TableError (Option Symbol) :=
  match table.frames with
  | [] => .error .noFrame
  | frame :: _ => .ok (frame.lookup name)

/-- What a name stands for: the innermost scope that declares it decides. -/
def SymbolTable.lookup (table : SymbolTable) (name : String) : Option Symbol :=
  table.frames.findSome? (List.lookup name)

/-- The symbols of the innermost scope, sorted by their names. -/
def SymbolTable.innermostSymbols (table : SymbolTable) : List Symbol :=
  sortByName ((table.frames.headD []).map Prod.snd)

/-- The declarations of a frame in one line, sorted by the declared names. -/
def Frame.dump (frame : Frame) : String :=
  let sorted := frame.mergeSort fun left right => left.1 ≤ right.1
  ", ".intercalate (sorted.map fun entry => entry.1 ++ "=" ++ entry.2.render)

/-- One line for each frame, the innermost one first. The outermost frame has
number zero. -/
def dumpFrames : List Frame → String
  | [] => ""
  | frame :: outer =>
      "scope " ++ toString outer.length ++ ": \x7b" ++ frame.dump ++ "\x7d\n"
        ++ dumpFrames outer

/-- A listing of all open scopes. -/
def SymbolTable.dump (table : SymbolTable) : String :=
  "Sym Table\n" ++ dumpFrames table.frames

end MiniLang

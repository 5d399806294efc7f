/-
Types, signatures and the symbols that declared names stand for.
-/
import MiniLang.Token.Basic

namespace MiniLang

inductive Ty where
  | int
  | bool
  | void
  | struct (name : String)
deriving Repr, DecidableEq

/-- A type is shown by its reserved word, or by the bare name of its struct. -/
def Ty.render : Ty → String
  | .int => Keyword.int.spelling
  | .bool => Keyword.bool.spelling
  | .void => Keyword.void.spelling
  | .struct name => name

/-- The words that name a type and hence cannot name a struct. -/
def reservedTypeNames : List String :=
  [Keyword.bool, Keyword.int, Keyword.void].map Keyword.spelling

def isReservedTypeName (word : String) : Bool := reservedTypeNames.contains word

/-- What a function takes and gives back. -/
structure Signature where
  params : List Ty
  result : Ty
deriving Repr, DecidableEq

def Signature.arity (signature : Signature) : Nat := signature.params.length

/-- The types of the parameters between commas, an arrow, and the result. -/
def Signature.render (signature : Signature) : String :=
  ",".intercalate (signature.params.map Ty.render) ++ "->"
    ++ signature.result.render

/-- What kind of thing a name was declared to be. -/
inductive SymbolKind where
  | var (type : Ty)
  | param (type : Ty)
  | struct
  | function (signature : Signature)
deriving Repr, DecidableEq

/-- What a declared name stands for, with the place of its declaration. -/
structure Symbol where
  name : String
  kind : SymbolKind
  span : Span
deriving Repr, DecidableEq

/-- The declared type: that of the result for a function, and for a struct the
struct itself. -/
def Symbol.type (symbol : Symbol) : Ty :=
  match symbol.kind with
  | .var type => type
  | .param type => type
  | .struct => .struct symbol.name
  | .function signature => signature.result

def Symbol.signature? (symbol : Symbol) : Option Signature :=
  match symbol.kind with
  | .function signature => some signature
  | _ => none

/-- The type as it is shown: a function shows its whole signature. -/
def Symbol.typeText (symbol : Symbol) : String :=
  match symbol.signature? with
  | some signature => signature.render
  | none => symbol.type.render

/-- A symbol is shown as its type in parentheses and its name. -/
def Symbol.render (symbol : Symbol) : String :=
  "(" ++ symbol.typeText ++ ")" ++ symbol.name

/-- Symbols in ascending order of their names; names are compared by code
points. -/
def sortByName (symbols : List Symbol) : List Symbol :=
  symbols.mergeSort fun left right => left.name ≤ right.name

end MiniLang

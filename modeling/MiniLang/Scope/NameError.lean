/-
What can be wrong with the names of a program.
-/
import MiniLang.Source.Span

namespace MiniLang

/-- What is wrong with a name. -/
inductive NameFault where
  | duplicateDeclaration
  | voidVariable
  | undeclaredIdentifier
  | invalidStructName
deriving Repr, DecidableEq

def NameFault.message : NameFault → String
  | .duplicateDeclaration => "Multiply declared identifier"
  | .voidVariable => "Non-function declared void"
  | .undeclaredIdentifier => "Undeclared identifier"
  | .invalidStructName => "Invalid name of struct type"

def NameFault.code : NameFault → String
  | .duplicateDeclaration => "E0101"
  | .voidVariable => "E0102"
  | .undeclaredIdentifier => "E0103"
  | .invalidStructName => "E0104"

/-- A fault, the name that has it, and where that name stands. -/
structure NameError where
  fault : NameFault
  name : String
  span : Span
deriving Repr, DecidableEq

def NameError.render (error : NameError) : String :=
  error.span.render ++ " ***ERROR*** " ++ error.fault.message

end MiniLang

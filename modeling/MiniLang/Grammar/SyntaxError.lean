/-
What can be wrong with the order of tokens.
-/
import MiniLang.Token.Basic

namespace MiniLang

/-- What a parser waits for. A mark is wanted at a certain point of a phrase, which
its context names. -/
inductive Wanted where
  | mark (punct : Punct) (context : String)
  | type
  | identifier
  | fieldDeclaration
  | closingBrace
  | storeOperator
deriving Repr, DecidableEq

def Wanted.text : Wanted → String
  | .mark punct context => quoted punct.spelling ++ " " ++ context
  | .type => "a type"
  | .identifier => "an identifier"
  | .fieldDeclaration => "a field declaration"
  | .closingBrace => quoted Punct.rightBrace.spelling
  | .storeOperator =>
      quoted Punct.equal.spelling ++ ", " ++ quoted Punct.plusPlus.spelling
        ++ " or " ++ quoted Punct.minusMinus.spelling

/-- What is wrong with the order of tokens. The last fault is none of the tokens: it
says that phrases were nested deeper than a parser goes. -/
inductive SyntaxFault where
  | expected (wanted : Wanted) (found : TokenKind)
  | expectedExpression (found : TokenKind)
  | notStatement
  | notAssignable
  | chainedComparison
  | emptyStruct (name : String)
  | tooDeep
deriving Repr, DecidableEq, Inhabited

/-- The number of a fault: one for tokens out of place, one for expressions, one
for declarations. -/
def SyntaxFault.code : SyntaxFault → String
  | .expected _ _ => "E0001"
  | .emptyStruct _ => "E0003"
  | _ => "E0002"

def SyntaxFault.message : SyntaxFault → String
  | .expected wanted found =>
      "expected " ++ wanted.text ++ ", found " ++ found.describe
  | .expectedExpression found =>
      "expected an expression, found " ++ found.describe
  | .notStatement => "expression cannot be used as a statement"
  | .notAssignable =>
      "left side of " ++ quoted Punct.equal.spelling
        ++ " must be a name or field access"
  | .chainedComparison => "comparison operators cannot be chained"
  | .emptyStruct name =>
      "struct " ++ quoted name ++ " must declare at least one field"
  | .tooDeep => "phrases are nested too deep"

/-- A remark of the parser about a stretch of text. -/
structure SyntaxNotice where
  code : String
  text : String
  span : Span
deriving Repr, DecidableEq

def SyntaxNotice.render (notice : SyntaxNotice) : String :=
  "error[" ++ notice.code ++ "]: " ++ notice.text ++ " at line "
    ++ notice.span.render

/-- A fault with the stretch of text that it is about. -/
structure SyntaxError where
  fault : SyntaxFault
  span : Span
deriving Repr, DecidableEq

def SyntaxError.notice (error : SyntaxError) : SyntaxNotice :=
  ⟨error.fault.code, error.fault.message, error.span⟩

end MiniLang

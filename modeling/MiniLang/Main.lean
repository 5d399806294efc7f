/-
The program `minic`: arguments and files in, text and an exit code out.
-/
import MiniLang.CommandLine

namespace MiniLang

def readSource (path : String) : IO (Except ReadError ByteArray) := do
  try
    return .ok (← IO.FS.readBinFile path)
  catch error =>
    return .error <| match error with
      | .noFileOrDirectory .. => .notFound
      | .inappropriateType .. => .isDirectory
      | error => .other (toString error)

/-- Print what a run has to say, and exit as it says. -/
def Outcome.perform (outcome : Outcome) : IO UInt32 := do
  IO.eprint outcome.stderr
  IO.print outcome.stdout
  return outcome.code.toUInt32

def runProgram (arguments : List String) : IO UInt32 := do
  match Invocation.ofArguments? arguments with
  | none =>
      IO.eprintln "usage: minic [OPTIONS] <check | tokens> <PATH>"
      return usageErrorCode.toUInt32
  | some .version => (Invocation.answer .version fun _ => .error .notFound).perform
  | some (.run command path settings) =>
      let contents ← readSource path
      (Invocation.answer (.run command path settings) fun _ => contents).perform

end MiniLang

def main (arguments : List String) : IO UInt32 := MiniLang.runProgram arguments

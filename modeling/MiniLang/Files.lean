/-
Reading source files: what may go wrong, and folders to read from.
-/
import MiniLang.Check

namespace MiniLang

/-- Why a file cannot be read as text. -/
inductive ReadError where
  | notFound
  | notDirectory
  | isDirectory
  | notText
  | other (text : String)
deriving Repr, DecidableEq

def ReadError.message : ReadError → String
  | .notFound => "No such file or directory (os error 2)"
  | .notDirectory => "Not a directory (os error 20)"
  | .isDirectory => "Is a directory (os error 21)"
  | .notText => "stream did not contain valid UTF-8"
  | .other text => text

/-- The text that the bytes of a file encode. -/
def decodeText (bytes : ByteArray) : Except ReadError String :=
  match String.fromUTF8? bytes with
  | some text => .ok text
  | none => .error .notText

/-- The document at a path, given what reading the path brought up. -/
def Document.ofFile (path : String) (contents : Except ReadError ByteArray) :
    Except Failure Document :=
  match contents.bind decodeText with
  | .ok text => .ok ⟨path, text⟩
  | .error error => .error (.io error.message)

/-- The steps of a path, without those that stay where they are. -/
def pathSteps (path : String) : List String :=
  ((path.toList.splitOn '/').map String.ofList).filter fun step =>
    step != "" && step != "."

/-- Whether a path insists that it leads to a folder. -/
def leadsToFolder (path : String) : Bool :=
  match (path.toList.splitOn '/').getLast? with
  | some step => step == [] || step == ['.']
  | none => false

/-- Whether a path starts at the root and not in a folder. -/
def startsAtRoot (path : String) : Bool :=
  path.toList.head? == some '/'

/-- A folder, known by the files in it and in the folders inside it. A file is kept
under the steps that lead to it. -/
structure Folder where
  files : List (List String × ByteArray)

def Folder.empty : Folder := ⟨[]⟩

def Folder.write (folder : Folder) (path : String) (bytes : ByteArray) : Folder :=
  ⟨(pathSteps path, bytes) :: folder.files⟩

/-- Read a path that starts in a folder. Nothing is known of the world outside the
folder but the folders that lie around it. -/
def Folder.read (folder : Folder) (path : String) : Except ReadError ByteArray :=
  let steps := pathSteps path
  if path = "" then .error .notFound
  else if steps.all (· == "..") then .error .isDirectory
  else if startsAtRoot path then .error .notFound
  else
    match folder.files.lookup steps with
    | some bytes => if leadsToFolder path then .error .notDirectory else .ok bytes
    | none =>
        if folder.files.any fun file => file.1.isPrefixOf steps then
          .error .notDirectory
        else if folder.files.any fun file => steps.isPrefixOf file.1 then
          .error .isDirectory
        else .error .notFound

end MiniLang

/-
The command line: which arguments make sense, what they ask for, and what is
printed in answer.
-/
import MiniLang.Files
import MiniLang.Report.Paint

namespace MiniLang

/-- When diagnostics are coloured. -/
inductive ColorChoice where
  | auto
  | always
  | never
deriving Repr, DecidableEq

def ColorChoice.ofName? (name : String) : Option ColorChoice :=
  if name = "auto" then some .auto
  else if name = "always" then some .always
  else if name = "never" then some .never
  else none

/-- Whether diagnostics are coloured. They are not unless that is asked for. -/
def ColorChoice.colored : ColorChoice → Bool
  | .always => true
  | _ => false

inductive LogLevel where
  | warn
  | info
  | debug
  | trace
deriving Repr, DecidableEq

def LogLevel.name : LogLevel → String
  | .warn => "warn"
  | .info => "info"
  | .debug => "debug"
  | .trace => "trace"

/-- What can be set for one run. -/
structure Settings where
  verbosity : Nat
  color : ColorChoice
  unparse : Bool
deriving Repr, DecidableEq

/-- How much is logged: more with every step of verbosity, up to the last level. -/
def Settings.logLevel (settings : Settings) : LogLevel :=
  match settings.verbosity with
  | 0 => .warn
  | 1 => .info
  | 2 => .debug
  | _ => .trace

inductive Command where
  | check
  | tokens
deriving Repr, DecidableEq

def Command.ofName? (name : String) : Option Command :=
  if name = "check" then some .check
  else if name = "tokens" then some .tokens
  else none

/-- What an argument is by its shape: the end of all options, a long option with
the value attached to it, letters that are options, or a plain word. A dash that
stands alone is a plain word. -/
inductive Argument where
  | endOfOptions
  | long (name : String) (value : Option String)
  | letters (letters : List Char)
  | plain (word : String)
deriving Repr, DecidableEq

/-- The long option `text`, which is written without its two dashes here. -/
def Argument.ofLong (text : List Char) : Argument :=
  let name := text.takeWhile (· != '=')
  let value := match text.dropWhile (· != '=') with
    | [] => none
    | _ :: value => some (String.ofList value)
  .long (String.ofList name) value

def Argument.ofText (text : String) : Argument :=
  match text.toList with
  | ['-', '-'] => .endOfOptions
  | '-' :: '-' :: option => Argument.ofLong option
  | ['-'] => .plain text
  | '-' :: flags => .letters flags
  | _ => .plain text

/-- The options that may be given in front of the command and behind it. -/
structure Shared where
  verbosity : Nat
  color : Option ColorChoice
deriving Repr, DecidableEq

def Shared.none : Shared := ⟨0, Option.none⟩

/-- What a shared option makes of the arguments from it on: the options so far with
this one, and the arguments behind it. -/
inductive SharedOption where
  | taken (shared : Shared) (rest : List String)
  | refused
  | unknown

/-- Take the colour choice. It may be made once in one place. -/
def Shared.takeColor (shared : Shared) (name : String) (rest : List String) :
    SharedOption :=
  match shared.color, ColorChoice.ofName? name with
  | Option.none, some choice => .taken ⟨shared.verbosity, some choice⟩ rest
  | _, _ => .refused

/-- Take one more step of verbosity for each letter. -/
def Shared.raise (shared : Shared) (steps : Nat) : Shared :=
  ⟨shared.verbosity + steps, shared.color⟩

/-- Take a shared option, with the word behind it if it needs a value. -/
def Shared.take (shared : Shared) (argument : Argument) (rest : List String) :
    SharedOption :=
  match argument with
  | .long "verbose" Option.none => .taken (shared.raise 1) rest
  | .long "color" (some name) => shared.takeColor name rest
  | .long "color" Option.none =>
      match rest with
      | [] => .refused
      | value :: rest =>
          match Argument.ofText value with
          | .plain name => shared.takeColor name rest
          | _ => .refused
  | .letters letters =>
      if letters.all (· == 'v') then .taken (shared.raise letters.length) rest
      else .unknown
  | _ => .unknown

theorem Shared.length_of_takeColor {shared shared' : Shared} {name : String}
    {rest rest' : List String}
    (h : shared.takeColor name rest = .taken shared' rest') :
    rest'.length = rest.length := by
  unfold Shared.takeColor at h
  split at h
  · cases h
    rfl
  · cases h

/-- Taking a shared option never gives arguments back. -/
theorem Shared.length_of_take {shared shared' : Shared} {argument : Argument}
    {rest rest' : List String}
    (h : shared.take argument rest = .taken shared' rest') :
    rest'.length ≤ rest.length := by
  unfold Shared.take at h
  split at h
  · cases h
    exact Nat.le_refl _
  · exact Nat.le_of_eq (Shared.length_of_takeColor h)
  · split at h
    · cases h
    · split at h
      · exact Nat.le_succ_of_le (Nat.le_of_eq (Shared.length_of_takeColor h))
      · cases h
  · split at h
    · cases h
      exact Nat.le_refl _
    · cases h
  · cases h

/-- What was given behind a command so far. -/
structure Given where
  shared : Shared
  unparse : Bool
  path : Option String
deriving Repr, DecidableEq

/-- Take the path. There is one, and it is not empty. -/
def Given.takePath (given : Given) (path : String) : Option Given :=
  if given.path.isSome || path == "" then none
  else some { given with path := some path }

/-- Read the arguments behind a command. There is no answer if they do not make
sense. -/
def Given.read (command : Command) (given : Given) : List String → Option Given
  | [] => some given
  | text :: rest =>
      let argument := Argument.ofText text
      match argument with
      | .endOfOptions => rest.foldlM Given.takePath given
      | .plain path =>
          match given.takePath path with
          | some given => Given.read command given rest
          | none => none
      | .long "unparse" none =>
          if command = .check ∧ given.unparse = false then
            Given.read command { given with unparse := true } rest
          else none
      | _ =>
          match h : given.shared.take argument rest with
          | .taken shared rest' =>
              have := Shared.length_of_take h
              Given.read command { given with shared := shared } rest'
          | _ => none
termination_by arguments => arguments.length

/-- What a command line asks for. -/
inductive Invocation where
  | version
  | run (command : Command) (path : String) (settings : Settings)
deriving Repr, DecidableEq

/-- What a command asks for, by the options in front of it and what was given
behind it. A colour choice behind the command wins. -/
def Given.invocation? (given : Given) (command : Command) (outer : Shared) :
    Option Invocation :=
  given.path.map fun path =>
    let color := (given.shared.color.or outer.color).getD .auto
    .run command path
      ⟨outer.verbosity + given.shared.verbosity, color, given.unparse⟩

/-- Whether letters ask for the version. Letters in front may only raise the
verbosity. -/
def asksVersion (letters : List Char) : Bool :=
  (letters.dropWhile (· == 'v')).head? == some 'V'

/-- Read a command line, given the options so far. There is no answer if the
arguments do not make sense. -/
def Invocation.read (shared : Shared) : List String → Option Invocation
  | [] => none
  | text :: rest =>
      let argument := Argument.ofText text
      match argument with
      | .endOfOptions => none
      | .plain name => do
          let command ← Command.ofName? name
          let given ← Given.read command ⟨.none, false, none⟩ rest
          given.invocation? command shared
      | .long "version" none => some .version
      | _ =>
          match h : shared.take argument rest with
          | .taken shared rest' =>
              have := Shared.length_of_take h
              Invocation.read shared rest'
          | .refused => none
          | .unknown =>
              match argument with
              | .letters letters =>
                  if asksVersion letters then some .version else none
              | _ => none
termination_by arguments => arguments.length

/-- What the arguments of a command line ask for. -/
def Invocation.ofArguments? (arguments : List String) : Option Invocation :=
  Invocation.read .none arguments

/-- What a run prints and how it ends. -/
structure Outcome where
  stdout : String
  stderr : String
  code : Nat
deriving Repr, DecidableEq

/-- Diagnostics, each with a blank line behind it. -/
def renderAll (diagnostics : List Diagnostic) (doc : Document) (colored : Bool) :
    String :=
  String.join (diagnostics.map fun diagnostic =>
    diagnostic.render doc colored ++ "\n\n")

def Failure.outcome (failure : Failure) (path : String) (colored : Bool) :
    Outcome :=
  ⟨"", paint colored .error "error" ++ ": " ++ path ++ ": " ++ failure.message
    ++ "\n", failure.status.code⟩

/-- What is printed for a check: the program if that is asked for, the diagnostics,
and the number of errors if there are any. -/
def CheckResult.outcome (result : CheckResult) (settings : Settings) : Outcome :=
  let colored := settings.color.colored
  let summary :=
    if result.hasErrors then
      paint colored .error "error" ++ ": " ++ toString result.errorCount
        ++ " error(s) found in " ++ result.document.name ++ "\n"
    else ""
  ⟨if settings.unparse then result.printed?.getD "" else "",
    renderAll result.diagnostics result.document colored ++ summary,
    result.status.code⟩

def TokenDump.outcome (dump : TokenDump) (settings : Settings) : Outcome :=
  ⟨dump.text, renderAll dump.diagnostics dump.document settings.color.colored,
    dump.status.code⟩

def Command.run (command : Command) (doc : Document) (settings : Settings) :
    Except Failure Outcome :=
  match command with
  | .check => doc.check.map fun result => result.outcome settings
  | .tokens => .ok (doc.dumpTokens.outcome settings)

def versionText : String := "minic 0.4.0"

/-- Answer an invocation; `read` says what is found at a path. -/
def Invocation.answer (invocation : Invocation)
    (read : String → Except ReadError ByteArray) : Outcome :=
  match invocation with
  | .version => ⟨versionText ++ "\n", "", ExitStatus.success.code⟩
  | .run command path settings =>
      match (Document.ofFile path (read path)).bind (command.run · settings) with
      | .ok outcome => outcome
      | .error failure => failure.outcome path settings.color.colored

/-- The number that a run exits with whose arguments do not make sense. -/
def usageErrorCode : Nat := 2

end MiniLang

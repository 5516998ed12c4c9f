import PlainC.Compilation

set_option autoImplicit false

/-!
The command line: one source file, and options before or behind it.
-/

namespace PlainC

structure CommandLine where
  input : String
  options : CompileOptions
  deriving Repr

/-- How a run of the program ends: its exit code, and what it prints to the standard error. -/
structure Exit where
  code : Nat
  output : String
  deriving DecidableEq, Repr

/-- Why the text of a file cannot be had. -/
inductive ReadFailure where
  | missing
  | directory
  /-- What should be a directory on the way to the file is none. -/
  | notDirectory
  | notText
  | other (description : String)
  deriving DecidableEq, Repr

def ReadFailure.message : ReadFailure → String
  | missing => "No such file or directory (os error 2)"
  | directory => "Is a directory (os error 21)"
  | notDirectory => "Not a directory (os error 20)"
  | notText => "stream did not contain valid UTF-8"
  | other description => description

namespace CommandLine

/-- Whether an argument is read as an option. A hyphen alone is the name of a file. -/
def isOption (argument : String) : Bool :=
  argument.startsWith "-" && argument ≠ "-"

/-- Takes an option, unless it is not known or was taken before. -/
def addOption? (options : CompileOptions) (argument : String) : Option CompileOptions :=
  match argument with
  | "--dump-tokens" =>
    if options.listTokens then none else some { options with listTokens := true }
  | "--dump-symbols" =>
    if options.listSymbols then none else some { options with listSymbols := true }
  | "-v" | "--verbose" =>
    if options.verbose then none else some { options with verbose := true }
  | _ => none

/-- Takes the name of the file, which is not empty, unless one was taken before. -/
def addInput? (input : Option String) (argument : String) : Option (Option String) :=
  if input.isSome || argument.isEmpty then none else some (some argument)

/-- The command that arguments make, behind those that gave a file and options. No argument behind
two hyphens is an option. -/
def takeArguments (input : Option String) (options : CompileOptions) :
    List String → Option CommandLine
  | [] => input.map fun name => ⟨name, options⟩
  | "--" :: names => do
    let input ← names.foldlM addInput? input
    return ⟨← input, options⟩
  | argument :: rest =>
    if isOption argument then do
      takeArguments input (← addOption? options argument) rest
    else do
      takeArguments (← addInput? input argument) options rest

/-- The command that arguments make, if there is exactly one file among them. -/
def ofArguments? (arguments : List String) : Option CommandLine :=
  takeArguments none {} arguments

/-- The text that the bytes of a file are. -/
def textOfBytes (bytes : ByteArray) : Except ReadFailure String :=
  match String.fromUTF8? bytes with
  | some text => .ok text
  | none => .error .notText

/-- Runs a command on the contents of its file. -/
def run (command : CommandLine) (contents : Except ReadFailure ByteArray) : Exit :=
  match contents.bind textOfBytes with
  | .error failure =>
    ⟨1, "error: cannot read " ++ command.input ++ ": " ++ failure.message ++ "\n"⟩
  | .ok source =>
    let compilation := Compilation.ofFile ⟨command.input, source⟩ command.options
    match compilation.result with
    | .error diagnostic => ⟨1, compilation.output ++ "error: " ++ diagnostic.display ++ "\n"⟩
    | .ok program =>
      let done := command.input ++ ": ok (" ++ toString (program.position + 1) ++ " tokens)\n"
      ⟨0, compilation.output ++ Compilation.textIf command.options.verbose done⟩

def usage : String :=
  "usage: plainc [--dump-tokens] [--dump-symbols] [-v | --verbose] FILE\n"

end CommandLine

end PlainC

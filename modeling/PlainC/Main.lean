import PlainC.CommandLine

set_option autoImplicit false

/-!
The program: reads the file that the command line names, and prints what comes of it.
-/

/-- The contents of a file, or why they cannot be read. -/
def readContents (path : String) : IO (Except PlainC.ReadFailure ByteArray) := do
  try
    return .ok (← IO.FS.readBinFile path)
  catch
    | .noFileOrDirectory .. => return .error .missing
    | .inappropriateType _ 21 _ => return .error .directory
    | .inappropriateType .. => return .error .notDirectory
    | error => return .error (.other (toString error))

def main (arguments : List String) : IO UInt32 := do
  match PlainC.CommandLine.ofArguments? arguments with
  | none =>
    IO.eprint PlainC.CommandLine.usage
    return 2
  | some command =>
    let result := command.run (← readContents command.input)
    IO.eprint result.output
    return UInt32.ofNat result.code

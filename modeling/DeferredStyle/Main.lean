import DeferredStyle.CommandLine.Run

/-!
# The program

`main` reads the files that a run may need, hands their bytes to `CommandLine.run` and writes the
outcome.
-/

set_option autoImplicit false

namespace DeferredStyle.CommandLine

/-- The bytes of a file, or the reason why it cannot be read. -/
def readFile (name : String) : IO (Except String (List UInt8)) := do
  try
    let bytes ← IO.FS.readBinFile name
    return .ok bytes.toList
  catch e =>
    match e with
    | .noFileOrDirectory _ code _ => return .error s!"No such file or directory (os error {code})"
    | .permissionDenied _ code _ => return .error s!"Permission denied (os error {code})"
    | _ => return .error "Is a directory (os error 21)"

/-- The files that a command line names. -/
def namedFiles (arguments : List String) : List String :=
  match Invocation.ofArguments arguments with
  | .error _ => []
  | .ok invocation => invocation.options.config.toList ++ [invocation.command.file]

end DeferredStyle.CommandLine

open DeferredStyle.CommandLine in
/-- Run a command line. -/
def main (arguments : List String) : IO UInt32 := do
  let names := namedFiles arguments
  let contents ← names.mapM readFile
  let files : Files := fun name => ((names.zip contents).lookup name).getD (.error "not read")
  let outcome := run files arguments
  IO.print outcome.stdout
  IO.eprint outcome.stderr
  return outcome.exit

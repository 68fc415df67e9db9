import ProcessCompiler.Command.Run
/-!
# The command line

Runs the compiler on the files of the system.
-/

namespace ProcessCompiler

namespace Command

/-- The fault of an operation on the system's files. -/
def faultOf : IO.Error → FileFault
  | .noFileOrDirectory .. => .notFound
  | .inappropriateType .. => .isDirectory
  | e => .other (toString e)

/-- The outcome of an operation on the system's files. -/
def attempt {α : Type} (act : IO α) : IO (Except FileFault α) := do
  match ← act.toBaseIO with
  | .ok a => return .ok a
  | .error e => return .error (faultOf e)

/-- The text that a file holds, byte by byte. -/
def decoded : Except FileFault ByteArray → Except FileFault String
  | .error f => .error f
  | .ok bytes =>
    match String.fromUTF8? bytes with
    | some content => .ok content
    | none => .error .notText

/-- The files of the system. -/
def systemFiles : FileAccess IO where
  read path := return decoded (← attempt (IO.FS.readBinFile path))
  write path content := attempt (IO.FS.writeFile path content)

end Command

end ProcessCompiler

/-- Run the compiler. -/
def main (args : List String) : IO UInt32 := do
  let outcome ← ProcessCompiler.Command.run ProcessCompiler.Command.systemFiles args
  IO.print outcome.out
  IO.eprint (outcome.stderr .plain)
  return outcome.code.toUInt32

import JsonGrammar.Command.Reply

/-!
# The program

The command with real files, streams and exit codes around it.
-/

namespace JsonGrammar

namespace Command

/-- The reason behind a failed reading.  Some calls of the system give the code
of an error with its sign turned. -/
def ReadProblem.ofError : IO.Error → ReadProblem
  | .noFileOrDirectory .. => .noSuchFile
  | .noSuchThing .. => .noSuchFile
  | .inappropriateType _ code _ =>
      if code = 20 ∨ code = 0 - 20 then .notADirectory else .isADirectory
  | failure => .other (toString failure)

/-- The bytes of a file, or the reason why there are none. -/
def readFile (path : String) : IO (Except ReadProblem ByteArray) := do
  match ← (IO.FS.readBinFile path).toBaseIO with
  | .ok bytes => return .ok bytes
  | .error failure => return .error (.ofError failure)

/-- The only file that the arguments need. -/
def neededFile? (arguments : List String) : Option String :=
  match Invocation.ofArguments arguments with
  | .run { source := .file path, .. } => some path
  | _ => none

end Command

end JsonGrammar

open JsonGrammar.Command in
/-- Answer the arguments on the standard streams. -/
def main (arguments : List String) : IO UInt32 := do
  let content ←
    match neededFile? arguments with
    | some path => readFile path
    | none => pure (.error .noSuchFile)
  let reply := respond Invocation.ofArguments (fun _ => content) arguments
  IO.print reply.stdout
  IO.eprint reply.stderr
  return UInt32.ofNat reply.exitCode

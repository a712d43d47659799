import FluentMerge.Charset.OneByte
import FluentMerge.Command.Run

/-!
# The program

Reads the files that a command needs, and does what the command comes to.
-/

namespace FluentMerge

/-- The number by which the system says that a part of a path is no directory. -/
def notDirectoryCode : UInt32 := 20

/-- The number by which the system says that a part of a path has too many bytes. -/
def nameTooLongCode : UInt32 := 36

/-- Why the system refused, as a fault. Its numbers come with either sign. -/
def FileFault.ofError : IO.Error → FileFault
  | .noFileOrDirectory _ _ _ => .notFound
  | .noSuchThing _ _ _ => .notFound
  | .inappropriateType _ code _ =>
    if code = notDirectoryCode ∨ code = 0 - notDirectoryCode then .notDirectory else .isDirectory
  | .invalidArgument file code details =>
    if code = nameTooLongCode ∨ code = 0 - nameTooLongCode then .nameTooLong
    else .other (toString (IO.Error.invalidArgument file code details))
  | e => .other (toString e)

/-- What is under a path of the system. -/
def readPath (path : String) : IO (Except FileFault (List UInt8)) := do
  match pathFault? path with
  | some fault => return .error fault
  | none =>
    try
      let bytes ← IO.FS.readBinFile path
      return .ok bytes.toList
    catch e => return .error (FileFault.ofError e)

/-- The files that a command reads. -/
def Command.paths : Command → List String
  | .version => []
  | .convert request _ => [request.catalogPath, request.documentPath]
  | .check request => [request.catalogPath, request.documentPath]

/-- Does what a command comes to, and gives the status to end with. -/
def Effect.perform : Effect → IO UInt32
  | .print text => do
    (← IO.getStdout).putStr text
    return 0
  | .write path text => do
    try
      IO.FS.writeFile path text
      return 0
    catch e =>
      IO.eprintln (programName ++ ": " ++ (FileFault.ofError e).message)
      return 1

/-- Runs the program with these arguments. -/
def runProgram (args : List String) : IO UInt32 := do
  match Command.ofArguments? args with
  | none => return 2
  | some command =>
    let found ← command.paths.mapM fun path => return (path, ← readPath path)
    let files path := (found.lookup path).getD (.error .notFound)
    match command.effect .oneByte files with
    | .ok effect => effect.perform
    | .error e =>
      IO.eprintln (programName ++ ": " ++ e.message)
      return 1

end FluentMerge

/-- The program. -/
def main (args : List String) : IO UInt32 := FluentMerge.runProgram args

import FluentMerge.Command.Arguments
import FluentMerge.Conversion.Data
import FluentMerge.Json.Render

/-!
# Running a command

A command is first carried out in thought: what it would print or write is computed from the files
as they are, and only a command with which nothing went wrong has an effect.
-/

namespace FluentMerge

/-- The name under which the program speaks. -/
def programName : String := "po2ftl"

/-- The line that tells the version. -/
def versionLine : String := programName ++ " 0.1.0\n"

/-- What a command does in the end. -/
inductive Effect where
  | print (text : String)
  | write (path text : String)
  deriving DecidableEq, Repr

/-- What a command does in the end, or what went wrong before. -/
def Command.effect (codecs : Charset.Codecs) (files : FileReader) :
    Command → Except ConversionError Effect
  | .version => .ok (.print versionLine)
  | .convert request none => .print <$> request.convert codecs files
  | .convert request (some path) => .write path <$> request.convert codecs files
  | .check request => do
    let issues ← request.audit codecs files
    return .print ((Json.ofList Issue.toJson issues).render ++ "\n")

/-- What a run of the program leaves. -/
structure Outcome where
  /-- The status with which it ends: 0 if all went well, 1 if something went wrong, 2 if it was
  called wrongly. -/
  status : Nat
  output : String
  /-- What it complains about. -/
  complaint : Option String
  files : Workspace

namespace Workspace

/-- The outcome of an effect. -/
def perform (w : Workspace) : Effect → Outcome
  | .print text => ⟨0, text, none, w⟩
  | .write path text =>
    match w.write path (Utf8.encode text.toList) with
    | .ok changed => ⟨0, "", none, changed⟩
    | .error fault => ⟨1, "", some fault.message, w⟩

/-- The outcome of a command. -/
def execute (w : Workspace) (codecs : Charset.Codecs) (command : Command) : Outcome :=
  match command.effect codecs w.read with
  | .ok effect => w.perform effect
  | .error e => ⟨1, "", some e.message, w⟩

/-- The outcome of a run with these arguments. -/
def run (w : Workspace) (codecs : Charset.Codecs) (args : List String) : Outcome :=
  match Command.ofArguments? args with
  | some command => w.execute codecs command
  | none => ⟨2, "", none, w⟩

end Workspace

end FluentMerge

import Std.Data.ExtTreeMap
import FluentMerge.Text.Lines

/-!
# Files

Where a conversion reads and writes. A `Workspace` is a directory with the files and directories in
it, and a path is followed from there, part by part. A path may go outside of the workspace, but it
finds nothing there.

What is wrong with the path as it is written comes first. Then the first part that cannot be entered
decides, and then what the last part is: a slash after it asks for a directory, which can be neither
read nor written.
-/

namespace FluentMerge

/-- Why a file cannot be read or written. -/
inductive FileFault where
  | notFound
  | isDirectory
  | notDirectory
  /-- A path or one of its parts has too many bytes. -/
  | nameTooLong
  /-- A path has a character in it that no name has. -/
  | nulInPath
  /-- Any other reason, in the words of the system. -/
  | other (description : String)
  deriving DecidableEq, Repr

/-- The sentence that a user reads. -/
def FileFault.message : FileFault → String
  | .notFound => "No such file or directory (os error 2)"
  | .isDirectory => "Is a directory (os error 21)"
  | .notDirectory => "Not a directory (os error 20)"
  | .nameTooLong => "File name too long (os error 36)"
  | .nulInPath => "file name contained an unexpected NUL byte"
  | .other description => description

/-- A way to read files: the bytes under a path. -/
abbrev FileReader := String → Except FileFault (List UInt8)

/-! ## Names and paths -/

/-- The number of bytes that a name may have. -/
def nameLimit : Nat := 255

/-- The number of bytes that a path may have. -/
def pathLimit : Nat := 4095

/-- Whether a name is short enough. -/
def isShortName (name : String) : Bool := Text.byteLength name.toList ≤ nameLimit

/-- Whether something in a directory can have this name. -/
def isFileName (name : String) : Bool :=
  name != "" && name != "." && name != ".." && !name.toList.contains '/' &&
    !name.toList.contains '\x00' && isShortName name

/-- What is wrong with a path wherever it leads. -/
def pathFault? (path : String) : Option FileFault :=
  if path.toList.contains '\x00' then some .nulInPath
  else if pathLimit < Text.byteLength path.toList then some .nameTooLong
  else if path = "" then some .notFound
  else none

/-- The parts of a path. Slashes in a row are one. -/
def pathParts (path : String) : List String :=
  ((path.toList.splitOn '/').filter (· ≠ [])).map String.ofList

/-- Whether a path asks for a directory by the slash that it ends with. -/
def endsWithSlash (path : String) : Bool := path.toList.getLast? == some '/'

/-! ## Directories -/

/-- Something that has a name in a directory. -/
inductive Node where
  | file (bytes : List UInt8)
  | directory
  deriving DecidableEq, Repr

/-- A directory: what is in it and in its directories, by the path from it. -/
abbrev Workspace := Std.ExtTreeMap String Node

/-- A directory on the way along a path. -/
inductive Directory where
  /-- The workspace or a directory in it, by the names on the way there. -/
  | inside (names : List String)
  /-- A directory of which nothing is known. -/
  | outside
  deriving DecidableEq, Repr

/-- The directory that a directory is in. -/
def Directory.parent : Directory → Directory
  | .inside [] => .outside
  | .inside (name :: names) => .inside (name :: names).dropLast
  | .outside => .outside

/-- The directory from which a path is followed. -/
def Directory.ofPath (path : String) : Directory :=
  if path.toList.head? = some '/' then .outside else .inside []

/-- What a path leads to. -/
inductive Target where
  /-- A directory that the path names by dots, or by nothing but slashes. -/
  | directory
  /-- A name in a directory. -/
  | entry (home : Directory) (name : String)
  deriving DecidableEq, Repr

namespace Workspace

/-- What has this name in a directory. -/
def node? (w : Workspace) (home : Directory) (name : String) : Except FileFault (Option Node) :=
  if isShortName name then
    match home with
    | .inside names => .ok w["/".intercalate (names ++ [name])]?
    | .outside => .ok none
  else .error .nameTooLong

/-- The directory that a part of a path leads to from another. -/
def enter (w : Workspace) (home : Directory) (part : String) : Except FileFault Directory :=
  if part = "." then .ok home
  else if part = ".." then .ok home.parent
  else do
    match ← w.node? home part, home with
    | some .directory, .inside names => .ok (.inside (names ++ [part]))
    | some .directory, .outside => .ok .outside
    | some (.file _), _ => .error .notDirectory
    | none, _ => .error .notFound

/-- What the parts of a path lead to. -/
def walk (w : Workspace) (home : Directory) : List String → Except FileFault Target
  | [] => .ok .directory
  | [part] => .ok (if part = "." ∨ part = ".." then .directory else .entry home part)
  | part :: next :: rest => do w.walk (← w.enter home part) (next :: rest)

/-- What a path leads to. -/
def follow (w : Workspace) (path : String) : Except FileFault Target :=
  match pathFault? path with
  | some fault => .error fault
  | none => w.walk (.ofPath path) (pathParts path)

/-- The bytes of the file under a path. -/
def read (w : Workspace) : FileReader := fun path => do
  match ← w.follow path with
  | .directory => .error .isDirectory
  | .entry home name =>
    match ← w.node? home name with
    | some .directory => .error .isDirectory
    | some (.file bytes) => if endsWithSlash path then .error .notDirectory else .ok bytes
    | none => .error .notFound

/-- The directory with bytes written under a path, in place of what the file there held. -/
def write (w : Workspace) (path : String) (bytes : List UInt8) : Except FileFault Workspace := do
  match ← w.follow path with
  | .directory => .error .isDirectory
  | .entry home name =>
    if endsWithSlash path then .error .isDirectory
    else match ← w.node? home name, home with
      | some .directory, _ => .error .isDirectory
      | _, .inside names => .ok (w.insert ("/".intercalate (names ++ [name])) (.file bytes))
      | _, .outside => .error .notFound

end Workspace

end FluentMerge

import FluentMerge.Conversion.Basic

/-!
# The command line

What the arguments of the program ask for. There are two commands, `convert` and `check`, which take
the two files of a conversion, each once; `convert` can be told where to write. A level for the log
can be given before the command and after it. Arguments that do not follow these rules ask for
nothing.
-/

namespace FluentMerge

/-- What a run of the program is asked to do. -/
inductive Command where
  | version
  | convert (request : Request) (output : Option String)
  | check (request : Request)
  deriving DecidableEq, Repr

/-- An option that takes a value. -/
inductive OptionName where
  | catalog
  | document
  | output
  | logLevel
  deriving DecidableEq, Repr

namespace OptionName

/-- The long form of an option. -/
def long : OptionName → String
  | .catalog => "--catalog"
  | .document => "--fluent"
  | .output => "--output"
  | .logLevel => "--log-level"

/-- Every option there is. -/
def all : List OptionName := [.catalog, .document, .output, .logLevel]

/-- The value after the name of an option in one argument: `some none` where the argument is the
name alone. -/
def inlineValue? (name arg : List Char) : Option (Option (List Char)) :=
  if name.isPrefixOf arg then
    match arg.drop name.length with
    | [] => some none
    | c :: value => if c = '=' then some (some value) else none
  else none

/-- The option that an argument names, and its value if that is in the same argument. Only the
output has a short name, and its value may follow it at once. -/
def ofArgument? (arg : String) : Option (OptionName × Option String) :=
  match arg.toList with
  | '-' :: 'o' :: value =>
    some (.output, if value = [] then none
      else some (String.ofList (if value.head? = some '=' then value.tail else value)))
  | arg => all.findSome? fun o =>
    (inlineValue? o.long.toList arg).map fun value => (o, value.map String.ofList)

/-- Whether an argument can be the value of the option before it. An argument with a dash is an
option itself, but a single dash is a value. -/
def isValue (arg : String) : Bool := arg == "-" || arg.toList.head? != some '-'

/-- Whether the option takes this value. A file has a name. -/
def admits (o : OptionName) (value : String) : Bool := o == .logLevel || value != ""

end OptionName

/-- The options that have been given. -/
abbrev GivenOptions := List (OptionName × String)

/-- Reads arguments that are options out of `allowed`, each at most once: the options, and the
arguments from the first on that is none. -/
def takeOptions (allowed : List OptionName) (given : GivenOptions) :
    List String → Option (GivenOptions × List String)
  | [] => some (given, [])
  | arg :: rest =>
    match OptionName.ofArgument? arg with
    | none => some (given, arg :: rest)
    | some (o, inline) =>
      if o ∈ allowed ∧ o ∉ given.map Prod.fst then
        match inline, rest with
        | some value, rest =>
          if o.admits value then takeOptions allowed (given ++ [(o, value)]) rest else none
        | none, value :: rest =>
          if OptionName.isValue value && o.admits value then
            takeOptions allowed (given ++ [(o, value)]) rest
          else none
        | none, [] => none
      else none

namespace Command

/-- The options after a command. A double dash may end them. -/
def options? (allowed : List OptionName) (args : List String) : Option GivenOptions :=
  match takeOptions allowed [] args with
  | some (given, []) => some given
  | some (given, ["--"]) => some given
  | _ => none

/-- The two files among the options. -/
def request? (given : GivenOptions) : Option Request := do
  let catalogPath ← given.lookup .catalog
  let documentPath ← given.lookup .document
  return ⟨catalogPath, documentPath⟩

/-- What arguments ask for, if they follow the rules. -/
def ofArguments? (args : List String) : Option Command := do
  let (_, rest) ← takeOptions [.logLevel] [] args
  match rest with
  | [] => none
  | name :: rest =>
    if name = "--version" ∨ "-V".toList.isPrefixOf name.toList then return .version
    else if name = "convert" then
      let given ← options? OptionName.all rest
      return .convert (← request? given) (given.lookup .output)
    else if name = "check" then
      let given ← options? [.catalog, .document, .logLevel] rest
      return .check (← request? given)
    else none

end Command

end FluentMerge

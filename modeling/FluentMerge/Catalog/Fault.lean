/-!
# Why a text is no catalog

The causes for which a gettext catalog is refused. Reading stops at the first of them and tells its
line.
-/

namespace FluentMerge

/-- What is wrong with a line of a catalog. -/
inductive CatalogFault where
  /-- The line begins with a word that is no keyword. -/
  | unknownKeyword (keyword : String)
  /-- A quoted string is missing, or something follows it. -/
  | expectedString
  /-- A quoted string is not closed on its line. -/
  | unterminatedString
  /-- A string that goes on with a field comes when no field is open. -/
  | orphanString
  /-- A translation comes before the text it is for. -/
  | missingMsgid
  /-- The number of a translation is none, or too large. -/
  | invalidPluralIndex (index : String)
  deriving DecidableEq, Repr

/-- The sentence for a fault. -/
def CatalogFault.message : CatalogFault → String
  | .unknownKeyword keyword => "unknown keyword '" ++ keyword ++ "'"
  | .expectedString => "expected a quoted string"
  | .unterminatedString => "unterminated string"
  | .orphanString => "string continuation without an open field"
  | .missingMsgid => "msgstr without msgid"
  | .invalidPluralIndex index => "invalid plural index '" ++ index ++ "'"

/-- The first fault of a catalog and its line, counted from one. -/
structure CatalogError where
  line : Nat
  fault : CatalogFault
  deriving DecidableEq, Repr

/-- The sentence that a user reads. -/
def CatalogError.message (e : CatalogError) : String :=
  "line " ++ toString e.line ++ ": " ++ e.fault.message

end FluentMerge

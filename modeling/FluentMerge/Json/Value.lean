/-!
# Data in JSON

A JSON value, and the ways a record is read from the members of an object: a member can be required,
it can have a default that stands for its absence, and its value can be nullable. Members of other
names are passed over, and a member that is there twice is refused, so the order of members never
matters. A record is read from an object only: the array of its fields in their order, which other
readers take for a record as well, is refused.

Offsets are the only numbers in the data of this library, and they are words of 64 bits.
-/

namespace FluentMerge

/-- A JSON value. The members of an object are in the order in which they are written. -/
inductive Json where
  | null
  | bool (value : Bool)
  | natural (value : Nat)
  /-- A number that is not written as a natural number, by its text. -/
  | otherNumber (text : String)
  | string (value : String)
  | array (items : List Json)
  | object (members : List (String × Json))
  deriving Inhabited, Repr, BEq

namespace Json

/-- A text, if the value is one. -/
def string? : Json → Option String
  | .string s => some s
  | _ => none

/-- A number below 2⁶⁴, if the value is one. -/
def offset? : Json → Option Nat
  | .natural n => if n < UInt64.size then some n else none
  | _ => none

/-- The items of an array, each read by `read?`. -/
def listOf? {α : Type} (read? : Json → Option α) : Json → Option (List α)
  | .array items => items.mapM read?
  | _ => none

/-- The members of an object, each value read by `read?`. -/
def membersOf? {α : Type} (read? : Json → Option α) : Json → Option (List (String × α))
  | .object members => members.mapM fun m => (read? m.2).map (m.1, ·)
  | _ => none

/-- A value that may be null. -/
def nullable? {α : Type} (read? : Json → Option α) : Json → Option (Option α)
  | .null => some none
  | j => (read? j).map some

/-- The values of the members that have one of these names. -/
def valuesOf (names : List String) : Json → List Json
  | .object members => members.filterMap fun m => if m.1 ∈ names then some m.2 else none
  | _ => []

/-- A member that has to be there once, under one of these names. -/
def requiredAs? {α : Type} (j : Json) (names : List String) (read? : Json → Option α) : Option α :=
  match j.valuesOf names with
  | [value] => read? value
  | _ => none

/-- A member that has to be there. -/
def required? {α : Type} (j : Json) (name : String) (read? : Json → Option α) : Option α :=
  j.requiredAs? [name] read?

/-- A member that stands for `absent` where it is not there. -/
def orElse? {α : Type} (j : Json) (name : String) (absent : α) (read? : Json → Option α) :
    Option α :=
  match j.valuesOf [name] with
  | [] => some absent
  | [value] => read? value
  | _ => none

/-- A member that may be absent or null. -/
def optional? {α : Type} (j : Json) (name : String) (read? : Json → Option α) :
    Option (Option α) :=
  j.orElse? name none (nullable? read?)

/-- Whether the value is an object. -/
def isObject : Json → Bool
  | .object _ => true
  | _ => false

/-- A value or null. -/
def ofOption {α : Type} (write : α → Json) : Option α → Json
  | none => .null
  | some a => write a

/-- An array of values. -/
def ofList {α : Type} (write : α → Json) (items : List α) : Json := .array (items.map write)

end Json

end FluentMerge

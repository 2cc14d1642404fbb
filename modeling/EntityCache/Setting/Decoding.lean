import EntityCache.Setting.Basic

/-!
# Reading single settings

A reader takes a tree and gives a value, or `none` if the tree does not have the form that is asked
for.  Nothing is converted: a number is no text, and `5.0` is no integer.

A section is a map of its fields, or a list of them in their order; any field may be missing.
`Reading.exact` refuses what is left over: surplus items, repeated fields, and a second name beside
the name of a choice.  `Reading.lenient` ignores it.
-/

namespace EntityCache

namespace Setting

/-- What becomes of something that is left over. -/
inductive Reading where
  | exact
  | lenient
deriving DecidableEq, Repr

/-- A text. -/
def text? : Setting → Option String
  | text s => some s
  | _ => none

/-- A truth value. -/
def bool? : Setting → Option Bool
  | bool b => some b
  | _ => none

/-- A natural number of at most `largest`. -/
def natural? (largest : Nat) : Setting → Option Nat
  | integer n => if 0 ≤ n ∧ n ≤ largest then some n.toNat else none
  | _ => none

/-- Nothing, or what another reader takes. -/
def optional? {α : Type} (read : Setting → Option α) : Setting → Option (Option α)
  | null => some none
  | s => (read s).map some

/-- One of several choices by name: the name itself, or a map from the name to nothing. -/
def choice? {α : Type} (reading : Reading) (choices : List α) (nameOf : α → String) :
    Setting → Option α
  | text s => choices.find? (nameOf · == s)
  | map ((name, null) :: rest) =>
    if reading = .exact ∧ rest ≠ [] then none else choices.find? (nameOf · == name)
  | _ => none

/-- The fields of a section, as a map from their names. -/
abbrev Section := String → Option Setting

/-- The section with fields of these names. -/
def section? (reading : Reading) (names : List String) : Setting → Option Section
  | map fields =>
    if reading = .exact ∧ names.any fun name => 1 < (fields.filter (·.1 == name)).length then none
    else some fun name => fields.lookup name
  | list items =>
    if reading = .exact ∧ names.length < items.length then none
    else some fun name => (names.zip items).lookup name
  | _ => none

/-- A field of a section, or its default if it is missing. -/
def Section.get? {α : Type} (s : Section) (name : String) (default : α) (read : Setting → Option α) :
    Option α :=
  match s name with
  | some setting => read setting
  | none => some default

end Setting

end EntityCache

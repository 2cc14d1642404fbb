import EntityCache.Setting.Plain
import EntityCache.Yaml.Node

/-!
# Settings in YAML

`Setting.ofYaml?` reads a source of settings.  It has to be a map, or empty.  The names of fields
are scalars of any kind, taken as they are written; of several fields of one name the last is kept.
A tag of the language itself decides what a scalar stands for; one of the document's own is refused.
-/

namespace EntityCache

namespace Setting

/-- The levels of sequences and mappings that a source may have. -/
def nestingLimit : Nat := 128

/-- What a tag of the language begins with. -/
def languageTag : String := "tag:yaml.org,2002:"

/-- Whether a tag is of the document's own. -/
def isOwnTag (tag : Option String) : Bool := tag.any fun t => t.toList.head? == some '!'

/-- What a scalar stands for. -/
def ofScalar? (tag : Option String) (content : String) (isPlain : Bool) : Option Setting :=
  match tag with
  | none => some (if isPlain then ofPlain content else text content)
  | some tag =>
    if tag = languageTag ++ "null" then
      if nullWords.contains content ∧ content ≠ "" then some null else none
    else if tag = languageTag ++ "bool" then (truthWords.lookup content).map bool
    else if tag = languageTag ++ "int" then (integer? content.toList).map integer
    else if tag = languageTag ++ "float" then
      if specialNumbers.contains content || isReal content.toList then some real else none
    else if isOwnTag (some tag) then none
    else some (text content)

/-- The name that a node stands for in front of a value. -/
def fieldName? : Yaml.Node → Option String
  | .scalar _ content _ => some content
  | _ => none

mutual

/-- The settings that a node holds, with at most `levels` levels of sequences and mappings. -/
def ofNode? (levels : Nat) : Yaml.Node → Option Setting
  | .scalar tag content isPlain => ofScalar? tag content isPlain
  | .sequence tag items =>
    match levels with
    | 0 => none
    | levels + 1 => if isOwnTag tag then none else (ofNodes? levels items).map list
  | .mapping tag fields =>
    match levels with
    | 0 => none
    | levels + 1 => if isOwnTag tag then none else (ofFieldNodes? levels fields).map ofFields

/-- The settings of a list of nodes. -/
def ofNodes? (levels : Nat) : List Yaml.Node → Option (List Setting)
  | [] => some []
  | node :: rest =>
    match ofNode? levels node with
    | some s => (ofNodes? levels rest).map (s :: ·)
    | none => none

/-- The settings of a list of fields. -/
def ofFieldNodes? (levels : Nat) : List (Yaml.Node × Yaml.Node) → Option (List (String × Setting))
  | [] => some []
  | (name, node) :: rest =>
    match fieldName? name, ofNode? levels node with
    | some name, some s => (ofFieldNodes? levels rest).map ((name, s) :: ·)
    | _, _ => none

end

/-- The settings that a text holds. -/
def ofYaml? (source : String) : Option Setting :=
  match Yaml.Node.ofText? source with
  | some (.mapping _ fields) => (ofFieldNodes? (nestingLimit - 1) fields).map ofFields
  | some (.scalar _ "" _) => some (map [])
  | _ => none

end Setting

end EntityCache

import EntityCache.Json.Document

/-!
# Settings before they are understood

A `Setting` is the tree that a source of settings holds, whatever it is written in.  Numbers that
are no integers only matter as something that no setting takes, so `real` does not keep its value;
`unreadable` stands for a part that cannot be read as a value at all, which is a mistake only where
the part is used.

`Setting.overlay` puts one tree over another: maps are joined field by field at every depth, and
anything else replaces what lies below it.
-/

namespace EntityCache

/-- A tree of settings. -/
inductive Setting where
  | null
  | bool (value : Bool)
  | integer (value : Int)
  | real
  | text (value : String)
  | list (items : List Setting)
  | map (fields : List (String × Setting))
  | unreadable

namespace Setting

instance : Inhabited Setting := ⟨null⟩

/-! ## Fields by name -/

/-- Puts a field at its place in a list of fields ordered by name, over one of the same name. -/
def insertField (name : String) (value : Setting) : List (String × Setting) → List (String × Setting)
  | [] => [(name, value)]
  | (other, kept) :: rest =>
    match compare name other with
    | .lt => (name, value) :: (other, kept) :: rest
    | .eq => (name, value) :: rest
    | .gt => (other, kept) :: insertField name value rest

/-- The map of fields; of several fields of one name the last is kept. -/
def ofFields (fields : List (String × Setting)) : Setting :=
  map (fields.foldl (fun ordered field => insertField field.1 field.2 ordered) [])

/-- The map that holds a value below a path of names. -/
def nest : List String → Setting → Setting
  | [], value => value
  | name :: rest, value => map [(name, nest rest value)]

/-! ## Putting one tree over another -/

mutual

/-- The tree `lower` with `upper` over it. -/
def overlay (lower : Setting) : Setting → Setting
  | map fields =>
    match lower with
    | map below => map (overlayFields below fields)
    | null | bool _ | integer _ | real | text _ | list _ | unreadable => map fields
  | null => null
  | bool b => bool b
  | integer n => integer n
  | real => real
  | text s => text s
  | list items => list items
  | unreadable => unreadable

/-- The fields `below` with other fields over them. -/
def overlayFields (below : List (String × Setting)) : List (String × Setting) → List (String × Setting)
  | [] => below
  | (name, value) :: rest =>
    let joined :=
      match below.lookup name with
      | some lower => overlay lower value
      | none => value
    overlayFields (insertField name joined below) rest

end

/-- All trees of a list, each over those before it, on an empty map. -/
def overlayAll (sources : List Setting) : Setting := sources.foldl overlay (map [])

/-! ## From JSON -/

mutual

/-- The settings that a value holds. -/
def ofJson : Json → Setting
  | .null => null
  | .bool b => bool b
  | .number (.integer n) => integer n
  | .number (.double _) => real
  | .string s => text s
  | .array items => list (ofJsonItems items)
  | .object fields => map (ofJsonFields fields)

/-- The settings of a list of values. -/
def ofJsonItems : List Json → List Setting
  | [] => []
  | v :: rest => ofJson v :: ofJsonItems rest

/-- The settings of a list of fields. -/
def ofJsonFields : List (String × Json) → List (String × Setting)
  | [] => []
  | (name, v) :: rest => (name, ofJson v) :: ofJsonFields rest

end

mutual

/-- The settings that a document holds; repeated fields are kept. -/
def ofDocument : Document → Setting
  | .null => null
  | .bool b => bool b
  | .number n =>
    match n.value? with
    | some (.integer n) => integer n
    | some (.double _) => real
    | none => unreadable
  | .string (some s) => text s
  | .string none => unreadable
  | .array items => list (ofDocuments items)
  | .object fields =>
    match ofDocumentFields? fields with
    | some fields => map fields
    | none => unreadable

/-- The settings of a list of documents. -/
def ofDocuments : List Document → List Setting
  | [] => []
  | d :: rest => ofDocument d :: ofDocuments rest

/-- The settings of a list of fields, if all their names can be read. -/
def ofDocumentFields? : List (Option String × Document) → Option (List (String × Setting))
  | [] => some []
  | (none, _) :: _ => none
  | (some name, d) :: rest => (ofDocumentFields? rest).map ((name, ofDocument d) :: ·)

end

end Setting

end EntityCache

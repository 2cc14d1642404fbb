import EntityCache.Decimal.Shortest

/-!
# JSON values

`Json` is the value a cache attribute can take.  A number is an integer or a double, and the two
are never mixed up: `1` and `1.0` are different values.  An object is the list of its fields;
`Json.Ordered` says that every object in a value lists its fields by strictly increasing name,
which makes equality of values the same as equality of trees.  `Json.ofFields` builds such a field
list from fields in any order, the last field of a name winning.
-/

namespace EntityCache

/-- A number: an integer in the range of a signed or unsigned 64-bit word, or a double. -/
inductive Json.Number where
  | integer (value : Int)
  | double (value : Double)
deriving DecidableEq

/-- A JSON value. -/
inductive Json where
  | null
  | bool (value : Bool)
  | number (value : Json.Number)
  | string (value : String)
  | array (items : List Json)
  | object (fields : List (String × Json))

namespace Json

instance : Inhabited Json := ⟨null⟩

/-! ## Equality -/

mutual

/-- Whether two values are the same tree. -/
def decEq : (a b : Json) → Decidable (a = b)
  | null, b =>
    match b with
    | null => isTrue rfl
    | bool _ | number _ | string _ | array _ | object _ => isFalse nofun
  | bool x, b =>
    match b with
    | bool y => decidable_of_iff (x = y) (by simp)
    | null | number _ | string _ | array _ | object _ => isFalse nofun
  | number x, b =>
    match b with
    | number y => decidable_of_iff (x = y) (by simp)
    | null | bool _ | string _ | array _ | object _ => isFalse nofun
  | string x, b =>
    match b with
    | string y => decidable_of_iff (x = y) (by simp)
    | null | bool _ | number _ | array _ | object _ => isFalse nofun
  | array x, b =>
    match b with
    | array y => @decidable_of_iff _ (x = y) (by simp) (decEqItems x y)
    | null | bool _ | number _ | string _ | object _ => isFalse nofun
  | object x, b =>
    match b with
    | object y => @decidable_of_iff _ (x = y) (by simp) (decEqFields x y)
    | null | bool _ | number _ | string _ | array _ => isFalse nofun

/-- Whether two lists of values are the same. -/
def decEqItems : (a b : List Json) → Decidable (a = b)
  | [], [] => isTrue rfl
  | [], _ :: _ => isFalse nofun
  | _ :: _, [] => isFalse nofun
  | x :: xs, y :: ys =>
    @decidable_of_iff _ (x = y ∧ xs = ys) (by simp)
      (@instDecidableAnd _ _ (decEq x y) (decEqItems xs ys))

/-- Whether two lists of fields are the same. -/
def decEqFields : (a b : List (String × Json)) → Decidable (a = b)
  | [], [] => isTrue rfl
  | [], _ :: _ => isFalse nofun
  | _ :: _, [] => isFalse nofun
  | (k, x) :: xs, (l, y) :: ys =>
    @decidable_of_iff _ (k = l ∧ x = y ∧ xs = ys) (by simp [and_assoc])
      (@instDecidableAnd _ _ inferInstance (@instDecidableAnd _ _ (decEq x y) (decEqFields xs ys)))

end

instance : DecidableEq Json := decEq

/-! ## Depth -/

mutual

/-- Levels of nesting: none for a scalar, one for an empty array or object. -/
def depth : Json → Nat
  | null | bool _ | number _ | string _ => 0
  | array items => depthItems items + 1
  | object fields => depthFields fields + 1

/-- The deepest of a list of values. -/
def depthItems : List Json → Nat
  | [] => 0
  | v :: rest => max (depth v) (depthItems rest)

/-- The deepest of a list of fields. -/
def depthFields : List (String × Json) → Nat
  | [] => 0
  | (_, v) :: rest => max (depth v) (depthFields rest)

end

/-! ## Fields by name -/

/-- Puts a field at its place in a list of fields ordered by name, over one of the same name. -/
def insertField (name : String) (value : Json) : List (String × Json) → List (String × Json)
  | [] => [(name, value)]
  | (other, kept) :: rest =>
    match compare name other with
    | .lt => (name, value) :: (other, kept) :: rest
    | .eq => (name, value) :: rest
    | .gt => (other, kept) :: insertField name value rest

/-- Fields ordered by name; of several fields of one name the last is kept. -/
def ofFields (fields : List (String × Json)) : List (String × Json) :=
  fields.foldl (fun ordered field => insertField field.1 field.2 ordered) []

/-- The field called `name`, the first one if there are several. -/
def field? (name : String) : Json → Option Json
  | object fields => fields.lookup name
  | _ => none

mutual

/-- Every object in the value lists its fields by strictly increasing name. -/
def Ordered : Json → Prop
  | null | bool _ | number _ | string _ => True
  | array items => OrderedItems items
  | object fields => (fields.map (·.1)).Pairwise (· < ·) ∧ OrderedFields fields

/-- Every value of the list is ordered. -/
def OrderedItems : List Json → Prop
  | [] => True
  | v :: rest => Ordered v ∧ OrderedItems rest

/-- The value of every field is ordered. -/
def OrderedFields : List (String × Json) → Prop
  | [] => True
  | (_, v) :: rest => Ordered v ∧ OrderedFields rest

end

end Json

end EntityCache

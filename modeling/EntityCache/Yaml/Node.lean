import EntityCache.Yaml.Layout

/-!
# Nodes of YAML text

`Node.ofTokens?` builds the tree of the one document that a text may hold.  An entry that is missing
is an empty plain scalar.  An alias stands for the latest node before it with that anchor.

The readers take a list of tokens and give a node with the tokens after it; their first argument
bounds the depth of the calls, and four calls for each token are more than they make.
-/

namespace EntityCache

namespace Yaml

/-- A tree, with the tags as far as they are written. -/
inductive Node where
  | scalar (tag : Option String) (text : String) (isPlain : Bool)
  | sequence (tag : Option String) (items : List Node)
  | mapping (tag : Option String) (fields : List (Node × Node))

namespace Node

instance : Inhabited Node := ⟨.scalar none "" true⟩

/-- The node of a missing entry. -/
def empty : Node := scalar none "" true

/-- What holds throughout a document: what the handles of tags stand for. -/
abbrev Handles := List (String × String)

/-- The handles that are always there. -/
def standardHandles : Handles := [("", ""), ("!", "!"), ("!!", "tag:yaml.org,2002:")]

/-- The nodes that have an anchor, the latest first. -/
abbrev Anchors := List (String × Node)

/-- What a reader gives: something, the tokens after it, and the anchors met. -/
abbrev Found (α : Type) := α × List Token × Anchors

/-- The anchor and the tag in front of a node, in any order. -/
structure Properties where
  anchor : Option String := none
  tag : Option String := none

/-- Reads an anchor. -/
def readAnchor (p : Properties) : List Token → Properties × List Token
  | .anchor name :: rest => ({ p with anchor := some name }, rest)
  | tokens => (p, tokens)

/-- Reads a tag; its handle has to be known. -/
def readTag (handles : Handles) (p : Properties) : List Token → Option (Properties × List Token)
  | .tag handle suffix :: rest =>
    (handles.lookup handle).map fun expansion => ({ p with tag := some (expansion ++ suffix) }, rest)
  | tokens => some (p, tokens)

/-- Reads the properties of a node. -/
def readProperties (handles : Handles) (tokens : List Token) : Option (Properties × List Token) :=
  match tokens with
  | .anchor _ :: _ =>
    let (p, rest) := readAnchor {} tokens
    readTag handles p rest
  | _ => (readTag handles {} tokens).map fun (p, rest) => readAnchor p rest

/-- Notes the anchor of a node. -/
def Properties.note (p : Properties) (node : Node) (anchors : Anchors) : Anchors :=
  match p.anchor with
  | some name => (name, node) :: anchors
  | none => anchors

/-- Whether an entry of a block mapping is missing before this token. -/
def endsBlockField : Option Token → Bool
  | some .key | some .value | some .blockEnd => true
  | _ => false

/-- Whether an entry of a block sequence is missing before this token. -/
def endsBlockItem : Option Token → Bool
  | some .blockEntry | some .blockEnd => true
  | _ => false

/-- Whether an entry of a sequence without an indentation of its own is missing before this
token. -/
def endsLooseItem : Option Token → Bool
  | some .blockEntry | some .key | some .value | some .blockEnd => true
  | _ => false

/-- Whether a value of a flow collection is missing before this token. -/
def endsFlowValue (close : Token) : Option Token → Bool
  | some .flowEntry => true
  | token => token == some close

/-- Whether a key of a flow collection is missing before this token. -/
def endsFlowKey (close : Token) : Option Token → Bool
  | some .value => true
  | token => endsFlowValue close token

/-- Where a node stands. -/
inductive Position where
  /-- In a flow collection, which holds no blocks. -/
  | flow
  | block
  /-- In a block mapping, where a sequence needs no indentation of its own. -/
  | field
deriving DecidableEq, Repr

mutual

/-- Reads a node. -/
def read (handles : Handles) : (depth : Nat) → Position → List Token → Anchors → Option (Found Node)
  | 0, _, _, _ => none
  | depth + 1, position, tokens, anchors =>
    match tokens with
    | .alias name :: rest => (anchors.lookup name).map fun node => (node, rest, anchors)
    | _ =>
      match readProperties handles tokens with
      | none => none
      | some (p, tokens) => do
        let (node, rest, anchors) ← readContent handles depth position p tokens anchors
        return (node, rest, p.note node anchors)

/-- Reads a node after its properties. -/
def readContent (handles : Handles) :
    (depth : Nat) → Position → Properties → List Token → Anchors → Option (Found Node)
  | 0, _, _, _, _ => none
  | depth + 1, position, p, tokens, anchors =>
    match tokens with
    | .scalar text isPlain :: rest => some (.scalar p.tag text isPlain, rest, anchors)
    | .flowSequenceStart :: rest => do
      let (items, rest, anchors) ← readFlowItems handles depth true rest anchors
      return (.sequence p.tag items, rest, anchors)
    | .flowMappingStart :: rest => do
      let (fields, rest, anchors) ← readFlowFields handles depth true rest anchors
      return (.mapping p.tag fields, rest, anchors)
    | .blockSequenceStart :: rest =>
      if position = .flow then none
      else do
        let (items, rest, anchors) ← readBlockItems handles depth rest anchors
        return (.sequence p.tag items, rest, anchors)
    | .blockMappingStart :: rest =>
      if position = .flow then none
      else do
        let (fields, rest, anchors) ← readBlockFields handles depth rest anchors
        return (.mapping p.tag fields, rest, anchors)
    | _ =>
      if position = .field ∧ tokens.head? = some .blockEntry then do
        let (items, rest, anchors) ← readLooseItems handles depth tokens anchors
        return (.sequence p.tag items, rest, anchors)
      else if p.anchor.isSome ∨ p.tag.isSome then some (.scalar p.tag "" true, tokens, anchors)
      else none

/-- Reads the items of a block sequence up to its end. -/
def readBlockItems (handles : Handles) : (depth : Nat) → List Token → Anchors → Option (Found (List Node))
  | 0, _, _ => none
  | depth + 1, tokens, anchors =>
    match tokens with
    | .blockEnd :: rest => some ([], rest, anchors)
    | .blockEntry :: rest => do
      let (item, rest, anchors) ←
        if endsBlockItem rest.head? then some (empty, rest, anchors)
        else read handles depth .block rest anchors
      let (items, rest, anchors) ← readBlockItems handles depth rest anchors
      return (item :: items, rest, anchors)
    | _ => none

/-- Reads the items of a sequence without an indentation of its own. -/
def readLooseItems (handles : Handles) : (depth : Nat) → List Token → Anchors → Option (Found (List Node))
  | 0, _, _ => none
  | depth + 1, tokens, anchors =>
    match tokens with
    | .blockEntry :: rest => do
      let (item, rest, anchors) ←
        if endsLooseItem rest.head? then some (empty, rest, anchors)
        else read handles depth .block rest anchors
      let (items, rest, anchors) ← readLooseItems handles depth rest anchors
      return (item :: items, rest, anchors)
    | _ => some ([], tokens, anchors)

/-- Reads the fields of a block mapping up to its end. -/
def readBlockFields (handles : Handles) :
    (depth : Nat) → List Token → Anchors → Option (Found (List (Node × Node)))
  | 0, _, _ => none
  | depth + 1, tokens, anchors =>
    match tokens with
    | .blockEnd :: rest => some ([], rest, anchors)
    | .key :: rest => do
      let (name, rest, anchors) ←
        if endsBlockField rest.head? then some (empty, rest, anchors)
        else read handles depth .field rest anchors
      let (value, rest, anchors) ←
        match rest with
        | .value :: rest =>
          if endsBlockField rest.head? then some (empty, rest, anchors)
          else read handles depth .field rest anchors
        | _ => some (empty, rest, anchors)
      let (fields, rest, anchors) ← readBlockFields handles depth rest anchors
      return ((name, value) :: fields, rest, anchors)
    | _ => none

/-- Reads the value of a field in a flow collection that ends with `close`. -/
def readFlowValue (handles : Handles) (close : Token) :
    (depth : Nat) → List Token → Anchors → Option (Found Node)
  | 0, _, _ => none
  | depth + 1, tokens, anchors =>
    match tokens with
    | .value :: rest =>
      if endsFlowValue close rest.head? then some (empty, rest, anchors)
      else read handles depth .flow rest anchors
    | _ => some (empty, tokens, anchors)

/-- Reads a field in a flow collection that ends with `close`, after the mark of a key. -/
def readFlowField (handles : Handles) (close : Token) :
    (depth : Nat) → List Token → Anchors → Option (Found (Node × Node))
  | 0, _, _ => none
  | depth + 1, tokens, anchors => do
    let (name, rest, anchors) ←
      if endsFlowKey close tokens.head? then some (empty, tokens, anchors)
      else read handles depth .flow tokens anchors
    let (value, rest, anchors) ← readFlowValue handles close depth rest anchors
    return ((name, value), rest, anchors)

/-- Reads the items of a flow sequence up to its end; the flag tells whether none has been read. -/
def readFlowItems (handles : Handles) :
    (depth : Nat) → Bool → List Token → Anchors → Option (Found (List Node))
  | 0, _, _, _ => none
  | depth + 1, isFirst, tokens, anchors =>
    match tokens, isFirst with
    | .flowSequenceEnd :: rest, _ => some ([], rest, anchors)
    | .flowEntry :: .flowSequenceEnd :: rest, false => some ([], rest, anchors)
    | .flowEntry :: rest, false => readFlowItem handles depth rest anchors
    | tokens, true => readFlowItem handles depth tokens anchors
    | _, false => none

/-- Reads an item of a flow sequence and the items after it.  A field in the place of an item is a
mapping of its own. -/
def readFlowItem (handles : Handles) : (depth : Nat) → List Token → Anchors → Option (Found (List Node))
  | 0, _, _ => none
  | depth + 1, tokens, anchors => do
    let (item, rest, anchors) ←
      match tokens with
      | .key :: rest =>
        (readFlowField handles .flowSequenceEnd depth rest anchors).map fun (field, rest, anchors) =>
          (Node.mapping none [field], rest, anchors)
      | _ => read handles depth .flow tokens anchors
    let (items, rest, anchors) ← readFlowItems handles depth false rest anchors
    return (item :: items, rest, anchors)

/-- Reads the fields of a flow mapping up to its end; the flag tells whether none has been read. -/
def readFlowFields (handles : Handles) :
    (depth : Nat) → Bool → List Token → Anchors → Option (Found (List (Node × Node)))
  | 0, _, _, _ => none
  | depth + 1, isFirst, tokens, anchors =>
    match tokens, isFirst with
    | .flowMappingEnd :: rest, _ => some ([], rest, anchors)
    | .flowEntry :: .flowMappingEnd :: rest, false => some ([], rest, anchors)
    | .flowEntry :: rest, false => readFlowEntry handles depth rest anchors
    | tokens, true => readFlowEntry handles depth tokens anchors
    | _, false => none

/-- Reads a field of a flow mapping and the fields after it. -/
def readFlowEntry (handles : Handles) :
    (depth : Nat) → List Token → Anchors → Option (Found (List (Node × Node)))
  | 0, _, _ => none
  | depth + 1, tokens, anchors => do
    let (field, rest, anchors) ←
      match tokens with
      | .key :: rest => readFlowField handles .flowMappingEnd depth rest anchors
      | _ =>
        (read handles depth .flow tokens anchors).map fun (name, rest, anchors) =>
          ((name, empty), rest, anchors)
    let (fields, rest, anchors) ← readFlowFields handles depth false rest anchors
    return (field :: fields, rest, anchors)

end

/-! ## Documents -/

/-- Reads the directives in front of a document; there is at most one version, and no handle is
explained twice. -/
def readDirectives (hasVersion : Bool) (handles : Handles) : List Token → Option (Handles × List Token)
  | .version :: rest => if hasVersion then none else readDirectives true handles rest
  | .tagHandle handle expansion :: rest =>
    if (handles.lookup handle).isSome then none
    else readDirectives hasVersion ((handle, expansion) :: handles) rest
  | tokens => some (handles, tokens)

/-- Whether nothing follows but marks of a document's end. -/
def isEnd (tokens : List Token) : Bool := tokens.all (· == .documentEnd)

/-- Reads the content of a document, after which nothing may follow. -/
def readDocument (handles : Handles) (tokens : List Token) : Option Node :=
  match read handles (4 * tokens.length + 4) .block tokens [] with
  | some (node, rest, _) => if isEnd rest then some node else none
  | none => none

/-- The document of a list of tokens; without any token it is empty. -/
def ofTokens? (tokens : List Token) : Option Node :=
  match readDirectives false [] tokens with
  | none => none
  | some (handles, rest) =>
    match rest with
    | .documentStart :: content =>
      if isEnd content then some empty else readDocument (handles ++ standardHandles) content
    | [] => if tokens.isEmpty then some empty else none
    | _ =>
      if tokens.length = rest.length then readDocument standardHandles tokens else none

/-- The document of a text. -/
def ofText? (text : String) : Option Node := (Layout.tokens? text).bind ofTokens?

end Node

end Yaml

end EntityCache

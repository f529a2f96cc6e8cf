import FederationGraph.Yaml.Token

/-!
# Nodes of a YAML document

The tokens of a document form a tree of scalars, sequences and mappings, each of
which may carry an anchor and a tag. In the tree an alias stands for the node with
its anchor, which has to begin in front of it; no two nodes have one anchor. A
text holds one document at most. Tokens are looked at one after the other, so
that of two faults the one that comes first in the text counts. Sequences and
mappings may be nested 490 deep.
-/
namespace FederationGraph.Yaml

/-- What stands in front of a node. -/
structure Properties where
  anchor : Option String
  tag : Option String
  deriving DecidableEq, Repr, Inhabited

/-- No anchor and no tag. -/
def Properties.none : Properties := ⟨.none, .none⟩

/-- A node. -/
inductive Node where
  | scalar (properties : Properties) (text : List Char) (plain : Bool)
  | sequence (properties : Properties) (items : List Node)
  | mapping (properties : Properties) (entries : List (Node × Node))
  | alias (name : String)
  deriving Inhabited

/-- The node where nothing is written. -/
def Node.empty : Node := .scalar .none [] true

/-! ## Looking at tokens -/

/-- What is left to read: the tokens, the anchors that must not come again, and how many further
nodes may be nested. -/
structure Feed where
  tokens : List Token
  anchors : List String
  room : Nat

/-- A step of reading. -/
abbrev Step := StateT Feed (Except Fault)

/-- The next token, if there is one; it has to be readable. -/
def front : Step (Option Token) := do
  match (← get).tokens with
  | .unreadable fault :: _ => throw fault
  | token :: _ => return some token
  | [] => return none

/-- Leaves the next token behind. -/
def advance : Step Unit := modify fun feed => { feed with tokens := feed.tokens.tail }

/-- Whether the next token is one of the given ones. -/
def comesNext (candidates : List Token) : Step Bool :=
  return (← front).any candidates.contains

/-- Remembers the anchor of a node; it must be a new one. -/
def declare (properties : Properties) : Step Unit := do
  match properties.anchor with
  | some name =>
    let feed ← get
    if feed.anchors.contains name then throw .malformed
    set { feed with anchors := name :: feed.anchors }
  | none => return ()

/-- Reads what is nested one node deeper. -/
def nested {α : Type} (read : Step α) : Step α := do
  let feed ← get
  if feed.room = 0 then throw .tooDeep
  set { feed with room := feed.room - 1 }
  let result ← read
  modify fun feed => { feed with room := feed.room + 1 }
  return result

/-- Refuses an alias without an anchor in front of it. -/
def requireAnchor (name : String) : Step Unit := do
  unless (← get).anchors.contains name do throw .malformed

/-! ## Tags -/

/-- What the handles of tags stand for. -/
abbrev Handles := List (String × String)

/-- The start of the tags that need no declaration. -/
def standardTag : String := "tag:yaml.org,2002:"

/-- The handles that need no declaration. -/
def standardHandles : Handles := [("!", "!"), ("!!", standardTag)]

/-- The name that a tag stands for. -/
def Tag.name (handles : Handles) (tag : Tag) : Except Fault String :=
  match tag.handle with
  | none => .ok tag.suffix
  | some handle =>
    match handles.lookup handle with
    | some start => .ok (start ++ tag.suffix)
    | none => .error .malformed

/-- An anchor and a tag in either order. -/
def readProperties (handles : Handles) : Step Properties := do
  match ← front with
  | some (.anchor name) =>
    advance
    match ← front with
    | some (.tag tag) =>
      advance
      return ⟨some name, some (← tag.name handles)⟩
    | _ => return ⟨some name, none⟩
  | some (.tag tag) =>
    advance
    match ← front with
    | some (.anchor name) =>
      advance
      return ⟨some name, some (← tag.name handles)⟩
    | _ => return ⟨none, some (← tag.name handles)⟩
  | _ => return .none

/-! ## Nodes -/

/-- The tokens that end an item of a block. -/
def blockItemEnds : List Token := [.item, .blockEnd]

/-- The tokens that end an item of a sequence that shares its mapping's indentation. -/
def sharedItemEnds : List Token := [.item, .key, .value, .blockEnd]

/-- The tokens that end a key or a value of a block. -/
def blockEntryEnds : List Token := [.key, .value, .blockEnd]

/-- The tokens that end a key between brackets; `close` is the closing one. -/
def flowKeyEnds (close : Token) : List Token := [.value, .separator, close]

/-- The tokens that end a value between brackets. -/
def flowValueEnds (close : Token) : List Token := [.separator, close]

/-- The empty scalar that an anchor or a tag in front of nothing makes. -/
def emptyNode (properties : Properties) : Step Node := do
  if properties = .none then throw .malformed
  declare properties
  return .scalar properties [] true

mutual
/-- A node. Blocks are read only if `block` says so, and items of a sequence at the indentation of
the mapping around it only if `shared` does. -/
def readNode (handles : Handles) (block shared : Bool) : Nat → Step Node
  | 0 => throw .malformed
  | fuel + 1 => do
    if let some (.alias name) ← front then
      advance
      requireAnchor name
      return .alias name
    let properties ← readProperties handles
    match ← front with
    | some (.scalar text plain) =>
      advance
      declare properties
      return .scalar properties text plain
    | some .sequenceOpen =>
      declare properties
      advance
      return .sequence properties (← nested (readFlowItems handles fuel true))
    | some .mappingOpen =>
      declare properties
      advance
      return .mapping properties (← nested (readFlowEntries handles fuel true))
    | some .item =>
      if shared then
        declare properties
        return .sequence properties (← nested (readSharedItems handles fuel))
      else emptyNode properties
    | some .blockSequence =>
      if block then
        declare properties
        advance
        return .sequence properties (← nested (readBlockItems handles fuel))
      else emptyNode properties
    | some .blockMapping =>
      if block then
        declare properties
        advance
        return .mapping properties (← nested (readBlockEntries handles fuel))
      else emptyNode properties
    | _ => emptyNode properties

/-- A node, or the empty one if one of the given tokens comes next. -/
def readNodeUnless (ends : List Token) (handles : Handles) (block shared : Bool) :
    Nat → Step Node
  | 0 => throw .malformed
  | fuel + 1 => do
    if ← comesNext ends then return .empty
    readNode handles block shared fuel

/-- The items of a block up to its end. -/
def readBlockItems (handles : Handles) : Nat → Step (List Node)
  | 0 => throw .malformed
  | fuel + 1 => do
    match ← front with
    | some .item =>
      advance
      let item ← readNodeUnless blockItemEnds handles true false fuel
      return item :: (← readBlockItems handles fuel)
    | some .blockEnd =>
      advance
      return []
    | _ => throw .malformed

/-- The items of a sequence that shares its mapping's indentation. -/
def readSharedItems (handles : Handles) : Nat → Step (List Node)
  | 0 => throw .malformed
  | fuel + 1 => do
    match ← front with
    | some .item =>
      advance
      let item ← readNodeUnless sharedItemEnds handles true false fuel
      return item :: (← readSharedItems handles fuel)
    | _ => return []

/-- The value behind a key, empty if no colon follows. -/
def readValue (ends : List Token) (handles : Handles) (block : Bool) : Nat → Step Node
  | 0 => throw .malformed
  | fuel + 1 => do
    match ← front with
    | some .value =>
      advance
      readNodeUnless ends handles block block fuel
    | _ => return .empty

/-- The entries of a block up to its end. -/
def readBlockEntries (handles : Handles) : Nat → Step (List (Node × Node))
  | 0 => throw .malformed
  | fuel + 1 => do
    match ← front with
    | some .key =>
      advance
      let key ← readNodeUnless blockEntryEnds handles true true fuel
      let value ← readValue blockEntryEnds handles true fuel
      return (key, value) :: (← readBlockEntries handles fuel)
    | some .blockEnd =>
      advance
      return []
    | _ => throw .malformed

/-- The items between square brackets; separators stand between them. An item that is a key makes
a mapping of its own. -/
def readFlowItems (handles : Handles) : Nat → Bool → Step (List Node)
  | 0, _ => throw .malformed
  | fuel + 1, first => do
    if ← comesNext [.sequenceClose] then
      advance
      return []
    unless first do
      unless ← comesNext [.separator] do throw .malformed
      advance
    match ← front with
    | some .sequenceClose =>
      advance
      return []
    | some .key =>
      advance
      let entry ← nested do
        let key ← readNodeUnless (flowKeyEnds .sequenceClose) handles false false fuel
        return (key, ← readValue (flowValueEnds .sequenceClose) handles false fuel)
      return .mapping .none [entry] :: (← readFlowItems handles fuel false)
    | _ =>
      let item ← readNode handles false false fuel
      return item :: (← readFlowItems handles fuel false)

/-- The entries between braces; separators stand between them. A node without a colon is a key
with an empty value. -/
def readFlowEntries (handles : Handles) : Nat → Bool → Step (List (Node × Node))
  | 0, _ => throw .malformed
  | fuel + 1, first => do
    if ← comesNext [.mappingClose] then
      advance
      return []
    unless first do
      unless ← comesNext [.separator] do throw .malformed
      advance
    match ← front with
    | some .mappingClose =>
      advance
      return []
    | some .key =>
      advance
      let key ← readNodeUnless (flowKeyEnds .mappingClose) handles false false fuel
      let value ← readValue (flowValueEnds .mappingClose) handles false fuel
      return (key, value) :: (← readFlowEntries handles fuel false)
    | _ =>
      let key ← readNode handles false false fuel
      return (key, .empty) :: (← readFlowEntries handles fuel false)
end

/-! ## Documents -/

/-- The major version of the documents that can be read. -/
def majorVersion : Nat := 1

/-- The handles that directives declare, each at most once; a version may be given once. -/
def readDirectives (versioned : Bool) (declared : Handles) : Nat → Step Handles
  | 0 => throw .malformed
  | fuel + 1 => do
    match ← front with
    | some (.directive (.version major)) =>
      if versioned || major ≠ majorVersion then throw .malformed
      advance
      readDirectives true declared fuel
    | some (.directive (.tag handle start)) =>
      if (declared.lookup handle).isSome then throw .malformed
      advance
      readDirectives versioned ((handle, start) :: declared) fuel
    | some (.directive .other) =>
      advance
      readDirectives versioned declared fuel
    | _ => return declared ++ standardHandles

/-- The handles of a document that starts with its mark. -/
def readDocumentStart (fuel : Nat) : Step Handles := do
  let handles ← readDirectives false [] fuel
  unless ← comesNext [.documentStart] do throw .malformed
  advance
  return handles

/-- Whether a token begins or ends a document. -/
def Token.isBoundary : Token → Bool
  | .directive _ => true
  | .documentStart => true
  | .documentEnd => true
  | _ => false

/-- The root of the document that comes next. -/
def readRoot (fuel : Nat) : Step Node := do
  match ← front with
  | some .documentEnd => throw .malformed
  | some token =>
    if token.isBoundary then
      let handles ← readDocumentStart fuel
      if (← front).all Token.isBoundary then return .empty
      readNode handles true false fuel
    else readNode standardHandles true false fuel
  | none => throw .malformed

/-- Leaves the marks behind that end a document. -/
def skipDocumentEnds : Nat → Step Unit
  | 0 => throw .malformed
  | fuel + 1 => do
    if ← comesNext [.documentEnd] then
      advance
      skipDocumentEnds fuel

/-- The root of the only document, if there is one. -/
def readDocument (fuel : Nat) : Step (Option Node) := do
  if (← front).isNone then return none
  let root ← readRoot fuel
  skipDocumentEnds fuel
  if (← front).isSome then
    let _ ← readDocumentStart fuel
    throw .malformed
  return some root

/-- The steps that suffice to read a number of tokens. -/
def stepsFor (tokens : Nat) : Nat := 4 * tokens + 4

/-- How deep sequences and mappings may be nested. -/
def deepest : Nat := 490

/-- The root of the document in a text. -/
def root? (text : String) : Except Fault (Option Node) :=
  let tokens := tokens text
  ((readDocument (stepsFor tokens.length)).run ⟨tokens, [], deepest⟩).map Prod.fst

end FederationGraph.Yaml

import StoragePlan.Yaml.Node
import StoragePlan.Yaml.Schema
import StoragePlan.Yaml.Token

/-!
# Reading documents

Builds the nodes of a document from its tokens. A text holds at most one document; a text without
any, or with comments alone, reads as no node at all.

Names of nodes get numbers: how many other names there were before. A name that is given again gets
a number again, which the next new name may share; an alias then stands for the node of the two that
begins later.
-/

namespace StoragePlan.Yaml

/-- The state of a reader of nodes. -/
structure NodeReader.State where
  /-- What is left of the tokens. -/
  tokens : List Token
  /-- The handles for tags and what they stand for. -/
  handles : List (String × String) := []
  /-- The names with their numbers. -/
  names : List (String × Nat) := []
  /-- The nodes with names, in the order in which they begin, with the numbers of their names. -/
  named : Array (Nat × Node) := #[]

/-- Reads nodes; it fails on what is no document. -/
abbrev NodeReader := StateT NodeReader.State Option

namespace NodeReader

/-- Looks at the next token. -/
def peek : NodeReader (Option Token) := do return (← get).tokens.head?

/-- Passes over the next token. -/
def advance : NodeReader Unit := modify fun s => { s with tokens := s.tokens.drop 1 }

/-- Passes over the next token if it is the expected one; tells whether it was. -/
def accept (t : Token) : NodeReader Bool := do
  if (← peek) == some t then
    advance
    return true
  return false

/-- Whether the next token is one of those given. -/
def before (tokens : List Token) : NodeReader Bool := do
  match ← peek with
  | some t => return tokens.contains t
  | none => return false

/-! ### Names and tags -/

/-- What the handles stand for unless a document says otherwise. -/
def defaultHandles : List (String × String) := [("!", "!"), ("!!", coreTag "")]

/-- The tag with its handle replaced; an unknown handle is malformed. -/
def fullTag (handle suffix : String) : NodeReader String := do
  if handle.isEmpty then return suffix
  let start ← ((← get).handles ++ defaultHandles).lookup handle
  return start ++ suffix

/-- Reads the name and the tag before a node, in either order. -/
def properties : Nat → Option String → Option String →
    NodeReader (Option String × Option String)
  | 0, name, tag => return (name, tag)
  | fuel + 1, name, tag => do
    match ← peek, name, tag with
    | some (.anchor n), none, _ =>
      advance
      properties fuel (some n) tag
    | some (.tag handle suffix), _, none =>
      advance
      properties fuel name (some (← fullTag handle suffix))
    | _, _, _ => return (name, tag)

/-- Gives a name to the node that begins here; its place among the named nodes is left open. -/
def beginNamed (name : String) : NodeReader Nat := do
  let s ← get
  let number := s.names.length
  set { s with
    names := (name, number) :: s.names.filter fun (n, _) => n != name
    named := s.named.push (number, .void) }
  return s.named.size

/-- Fills the place of a named node. -/
def endNamed (place : Nat) (n : Node) : NodeReader Unit :=
  modify fun s => { s with named := s.named.modify place fun (number, _) => (number, n) }

/-- Whether a literal block spells what its tag says, a truth value or a number. -/
def spellsTag (tag text : String) : Bool :=
  (tag == coreTag "bool" && (Meaning.bool? text).isSome) ||
    (tag == coreTag "int" && (Meaning.natural? text).isSome)

/-- A scalar. The tag `!` says nothing about it. A literal block that spells what its tag says is as
good as a plain scalar. -/
def scalar (tag : Option String) (style : Style) (text : String) : Node :=
  let tag := tag.filter (· != "!")
  let quoted := match style with
    | .plain => false
    | .literal => !tag.any (spellsTag · text)
    | .quoted => true
  .scalar tag quoted text

/-! ### Nodes -/

mutual

/-- Reads a node. In a block, blocks are allowed (`inBlock`); as the value of a mapping entry, a
sequence need not be indented deeper (`unindented`). The first argument bounds the nesting. -/
def node : Nat → Bool → Bool → NodeReader Node
  | 0, _, _ => failure
  | fuel + 1, inBlock, unindented => do
    if let some (.alias name) ← peek then
      advance
      let number ← (← get).names.lookup name
      return .alias number
    let (name, tag) ← properties 2 none none
    let bare := name.isNone && tag.isNone
    let place ← name.mapM beginNamed
    let result ← match ← peek with
      | some (.scalar style text) => do
        advance
        pure (scalar tag style text)
      | some .flowSeqStart => do
        advance
        pure (Node.seq tag (← flowItems fuel true))
      | some .flowMapStart => do
        advance
        pure (Node.map tag (← flowEntries fuel true))
      | some .blockSeqStart =>
        if inBlock then do
          advance
          pure (Node.seq tag (← blockItems fuel))
        else if bare then failure
        else pure (Node.scalar tag false "")
      | some .blockMapStart =>
        if inBlock then do
          advance
          pure (Node.map tag (← blockEntries fuel))
        else if bare then failure
        else pure (Node.scalar tag false "")
      | some .blockEntry =>
        if unindented then do pure (Node.seq tag (← unindentedItems fuel))
        else if bare then failure
        else pure (Node.scalar tag false "")
      | _ => if bare then failure else pure (Node.scalar tag false "")
    if let some place := place then endNamed place result
    return result

/-- Reads the items of a block sequence. -/
def blockItems : Nat → NodeReader (List Node)
  | 0 => failure
  | fuel + 1 => do
    if ← accept .blockEnd then return []
    if !(← accept .blockEntry) then failure
    let item ← if ← before [.blockEntry, .blockEnd] then pure Node.void
      else node fuel true false
    return item :: (← blockItems fuel)

/-- Reads the items of a block sequence that is not indented deeper than its key. -/
def unindentedItems : Nat → NodeReader (List Node)
  | 0 => failure
  | fuel + 1 => do
    if !(← accept .blockEntry) then return []
    let item ← if ← before [.blockEntry, .key, .value, .blockEnd] then pure Node.void
      else node fuel true false
    return item :: (← unindentedItems fuel)

/-- Reads the entries of a block mapping. -/
def blockEntries : Nat → NodeReader (List (Node × Node))
  | 0 => failure
  | fuel + 1 => do
    if ← accept .blockEnd then return []
    if !(← accept .key) then failure
    let key ← if ← before [.key, .value, .blockEnd] then pure Node.void
      else node fuel true true
    let value ← if ← accept .value then
        if ← before [.key, .value, .blockEnd] then pure Node.void else node fuel true true
      else pure Node.void
    return (key, value) :: (← blockEntries fuel)

/-- Reads the items of a flow sequence; an item with a colon is a mapping of one entry. After a
question mark without a key, one colon, comma or bracket is passed over. -/
def flowItems : Nat → Bool → NodeReader (List Node)
  | 0, _ => failure
  | fuel + 1, first => do
    if ← accept .flowSeqEnd then return []
    if !first then
      if !(← accept .flowEntry) then failure
      if ← accept .flowSeqEnd then return []
    let item ← if ← accept .key then do
        let key ← if ← before [.value, .flowEntry, .flowSeqEnd] then do
            advance
            pure Node.void
          else node fuel false false
        let value ← if ← accept .value then
            if ← before [.flowEntry, .flowSeqEnd] then pure Node.void
            else node fuel false false
          else pure Node.void
        pure (Node.map none [(key, value)])
      else node fuel false false
    return item :: (← flowItems fuel false)

/-- Reads the entries of a flow mapping; an entry without a colon is a key without a value. -/
def flowEntries : Nat → Bool → NodeReader (List (Node × Node))
  | 0, _ => failure
  | fuel + 1, first => do
    if ← accept .flowMapEnd then return []
    if !first then
      if !(← accept .flowEntry) then failure
      if ← accept .flowMapEnd then return []
    let entry ← if ← accept .key then do
        let key ← if ← before [.value, .flowEntry, .flowMapEnd] then pure Node.void
          else node fuel false false
        let value ← if ← accept .value then
            if ← before [.flowEntry, .flowMapEnd] then pure Node.void
            else node fuel false false
          else pure Node.void
        pure (key, value)
      else do pure (← node fuel false false, Node.void)
    return entry :: (← flowEntries fuel false)

end

/-! ### Documents -/

/-- Reads the directives before a document; tells whether there are any. A document has one version
at most, and a handle has one meaning. -/
def directives : Nat → Bool → NodeReader Bool
  | 0, _ => return false
  | fuel + 1, versioned => do
    match ← peek with
    | some (.version major minor) =>
      if versioned || major != 1 || !(minor == 1 || minor == 2) then failure
      advance
      discard (directives fuel true)
      return true
    | some (.handle handle uri) =>
      if ((← get).handles.lookup handle).isSome then failure
      modify fun s => { s with handles := (handle, uri) :: s.handles }
      advance
      discard (directives fuel versioned)
      return true
    | _ => return false

/-- Reads the document in a text, if there is one. Only a marked document can have directives. -/
def document (fuel : Nat) : NodeReader (Option Written) := do
  if (← peek).isNone then return none
  let directed ← directives fuel false
  let root ← if ← accept .documentStart then
      if (← peek).isNone || (← before [.documentStart, .documentEnd]) then pure Node.void
      else node fuel true false
    else if directed then failure
    else node fuel true false
  modify fun s => { s with tokens := s.tokens.dropWhile (· == .documentEnd) }
  let s ← get
  if !s.tokens.isEmpty then failure
  return some ⟨root, s.named.toList.reverse⟩

end NodeReader

/-- The document in a text, if there is one; fails on malformed text and on more than one. -/
def Written.ofText? (text : String) : Option (Option Written) := do
  let tokens ← Token.ofText? text
  (NodeReader.document (4 * tokens.length + 4)).run' { tokens }

/-- The tree of the document in a text, an empty scalar if there is none. -/
def Tree.ofText? (text : String) : Option Tree := do
  match ← Written.ofText? text with
  | some w => w.tree?
  | none => return .plain ""

end StoragePlan.Yaml

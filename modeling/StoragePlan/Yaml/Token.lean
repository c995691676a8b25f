import StoragePlan.Yaml.Scalar
import StoragePlan.Yaml.Tag

/-!
# Tokens

The lexer cuts a text into tokens and tells the block structure from the indentation: a block opens
where an entry is indented deeper than the block around it, and closes before a line that is
indented less.

The key of a mapping entry is only known by the colon after it. So wherever a key could start, the
lexer remembers the place (`KeyMark`), and puts the tokens for the key there when it meets the
colon. A place is given up at the end of its line or after 1024 characters; one at the indentation
of its block has to turn out to be a key.
-/

namespace StoragePlan.Yaml

/-- How a scalar is written. -/
inductive Style where
  | plain
  /-- As a block whose lines are kept. -/
  | literal
  /-- In quotes, or as a block whose lines are folded. -/
  | quoted
  deriving DecidableEq

/-- A token of a document. -/
inductive Token where
  /-- The version of the language. -/
  | version (major minor : Nat)
  /-- A handle for tags and what it stands for. -/
  | handle (handle uri : String)
  /-- Three hyphens. -/
  | documentStart
  /-- Three dots. -/
  | documentEnd
  | blockSeqStart
  | blockMapStart
  /-- The end of a block sequence or mapping. -/
  | blockEnd
  | flowSeqStart
  | flowSeqEnd
  | flowMapStart
  | flowMapEnd
  /-- A hyphen. -/
  | blockEntry
  /-- A comma. -/
  | flowEntry
  /-- Before a key. -/
  | key
  /-- Before a value: a colon. -/
  | value
  /-- A name for the next node. -/
  | anchor (name : String)
  /-- The node that has the name. -/
  | alias (name : String)
  /-- The type of the next node, behind a handle; a tag that is complete has an empty one. -/
  | tag (handle suffix : String)
  | scalar (style : Style) (text : String)
  deriving DecidableEq

/-- A place where a key could start. -/
structure KeyMark where
  /-- Whether only a key can be there. -/
  required : Bool
  /-- How many tokens come before. -/
  position : Nat
  /-- Where it is. -/
  source : Source

/-- The state of the lexer. -/
structure Lexer where
  /-- What is left of the text. -/
  source : Source
  /-- The tokens so far. -/
  tokens : Array Token := #[]
  /-- The indentation of the innermost block, -1 outside of all blocks. -/
  indent : Int := -1
  /-- The indentations of the blocks around it, innermost first. -/
  outer : List Int := []
  /-- Where a key could have started, for each level of flow collections, innermost first. -/
  keys : List (Option KeyMark) := [none]
  /-- Whether a key can start here. -/
  keyAllowed : Bool := true

namespace Lexer

/-- A step of the lexer; it fails on malformed text. -/
abbrev Step := StateT Lexer Option

/-- Whether the lexer is inside a flow collection. -/
def inFlow (l : Lexer) : Bool := 1 < l.keys.length

/-- Appends a token. -/
def emit (t : Token) : Step Unit := modify fun l => { l with tokens := l.tokens.push t }

/-- Passes over characters of one line. -/
def skip (n : Nat := 1) : Step Unit := modify fun l => { l with source := l.source.skip n }

/-- Sets whether a key can start here. -/
def allowKey (keyAllowed : Bool) : Step Unit := modify fun l => { l with keyAllowed }

/-- Passes over blanks, comments and line breaks. A tab may stand where no key can start, a byte
order mark at the start of a line. -/
def toToken : Nat → Lexer → Lexer
  | 0, l => l
  | fuel + 1, l =>
    let s := l.source
    let s := if s.column == 0 && s.starts '\ufeff' then s.skip else s
    let s := (s.span fun c => c == ' ' || (c == '\t' && (l.inFlow || !l.keyAllowed))).2
    let s := if s.starts '#' then (s.span fun c => !isBreak c).2 else s
    if s.rest.head?.any isBreak then
      toToken fuel { l with source := s.skipBreak, keyAllowed := l.keyAllowed || !l.inFlow }
    else { l with source := s }

/-! ### Places for keys -/

/-- Gives up the innermost place; malformed if only a key can be there. -/
def dropKey : Step Unit := do
  let l ← get
  match l.keys with
  | some mark :: rest =>
    if mark.required then failure
    set { l with keys := none :: rest }
  | _ => pure ()

/-- Remembers that a key could start here. -/
def markKey : Step Unit := do
  let l ← get
  if l.keyAllowed then
    dropKey
    let required := !l.inFlow && l.indent == l.source.column
    modify fun l =>
      { l with keys := some ⟨required, l.tokens.size, l.source⟩ :: l.keys.drop 1 }

/-- Gives up the places that are too far back. -/
def dropStaleKeys : Step Unit := do
  let l ← get
  let keys ← l.keys.mapM fun key =>
    match key with
    | some mark =>
      if mark.source.line < l.source.line || mark.source.index + 1024 < l.source.index then
        if mark.required then failure else pure none
      else pure key
    | none => pure none
  set { l with keys }

/-! ### Blocks -/

/-- Opens a block at a column, unless the innermost one is there; its token goes to the position. -/
def openBlock (column position : Nat) (t : Token) : Step Unit :=
  modify fun l =>
    if !l.inFlow && l.indent < (column : Int) then
      { l with
        indent := column
        outer := l.indent :: l.outer
        tokens := l.tokens.insertIdxIfInBounds position t }
    else l

/-- Closes the blocks that are indented deeper than a column. -/
def closeBlocks (column : Int) (l : Lexer) : Lexer :=
  if l.inFlow then l
  else
    let closed := ((l.indent :: l.outer).takeWhile (column < ·)).length
    match (l.indent :: l.outer).drop closed with
    | indent :: outer =>
      { l with indent, outer, tokens := l.tokens ++ (List.replicate closed Token.blockEnd).toArray }
    | [] => l

/-- Leaves all blocks and gives up the place for a key. -/
def leaveBlocks : Step Unit := do
  modify (closeBlocks (-1))
  dropKey
  allowKey false

/-! ### The tokens -/

/-- Reads a document marker. -/
def documentToken (t : Token) : Step Unit := do
  leaveBlocks
  skip 3
  emit t

/-- Reads an opening bracket. -/
def openFlow (t : Token) : Step Unit := do
  markKey
  modify fun l => { l with keys := none :: l.keys }
  allowKey true
  skip
  emit t

/-- Reads a closing bracket. -/
def closeFlow (t : Token) : Step Unit := do
  dropKey
  modify fun l => if l.inFlow then { l with keys := l.keys.drop 1 } else l
  allowKey false
  skip
  emit t

/-- Reads a comma. -/
def flowEntry : Step Unit := do
  dropKey
  allowKey true
  skip
  emit .flowEntry

/-- Opens a block for an entry here, where there has to be room for one. -/
def openEntry (t : Token) : Step Unit := do
  let l ← get
  if !l.inFlow then
    if !l.keyAllowed then failure
    openBlock l.source.column l.tokens.size t

/-- Reads a hyphen. -/
def blockEntry : Step Unit := do
  openEntry .blockSeqStart
  dropKey
  allowKey true
  skip
  emit .blockEntry

/-- Reads a question mark before a key. -/
def explicitKey : Step Unit := do
  openEntry .blockMapStart
  dropKey
  allowKey !(← get).inFlow
  skip
  emit .key

/-- Reads a colon; what came before it may turn out to be the key. -/
def value : Step Unit := do
  let l ← get
  match l.keys with
  | some mark :: rest =>
    set { l with tokens := l.tokens.insertIdxIfInBounds mark.position .key, keys := none :: rest }
    openBlock mark.source.column mark.position .blockMapStart
    allowKey false
  | _ =>
    openEntry .blockMapStart
    allowKey !l.inFlow
  skip
  emit .value

/-- Reads the name after an ampersand or a star. -/
def name (t : String → Token) : Step Unit := do
  markKey
  allowKey false
  let (word, s) := (← get).source.skip.span isWord
  if word.isEmpty then failure
  if !(s.spaceAt 0 || s.rest.head?.any fun c => "?:,]\x7d%@`".toList.contains c) then failure
  modify fun l => { l with source := s }
  emit (t (String.ofList word))

/-- Reads a tag. -/
def tag : Step Unit := do
  markKey
  allowKey false
  let l ← get
  let (handle, suffix, s) ← Tag.tag l.source
  if !(s.spaceAt 0 || (l.inFlow && s.starts ',')) then failure
  set { l with source := s }
  emit (.tag handle suffix)

/-- Reads a directive, a line that begins with a percent sign. -/
def directive : Step Unit := do
  leaveBlocks
  let (word, s) := (← get).source.skip.span isWord
  if !s.spaceAt 0 then failure
  let s := (s.span isBlank).2
  let (t, s) ← match String.ofList word with
    | "YAML" => (Tag.version s).map fun (major, minor, s) => (Token.version major minor, s)
    | "TAG" => (Tag.handle s).map fun (name, uri, s) => (Token.handle name uri, s)
    | _ => none
  let source ← Scalar.restOfLine s
  modify fun l => { l with source }
  emit t

/-- Reads a block scalar. -/
def blockScalar (literal : Bool) : Step Unit := do
  dropKey
  allowKey true
  let l ← get
  let (text, s) ← Scalar.block literal l.indent l.source
  set { l with source := s }
  emit (.scalar (if literal then .literal else .quoted) text)

/-- Reads a quoted scalar. -/
def quotedScalar (single : Bool) : Step Unit := do
  markKey
  allowKey false
  let l ← get
  let (text, s) ← Scalar.quoted single l.source
  set { l with source := s }
  emit (.scalar .quoted text)

/-- Reads a plain scalar. -/
def plainScalar : Step Unit := do
  markKey
  allowKey false
  let l ← get
  let (text, broken, s) ← Scalar.plain l.inFlow (l.indent + 1) l.source
  set { l with source := s, keyAllowed := broken }
  emit (.scalar .plain text)

/-- Reads the token that begins with the character `c`. -/
def token (c : Char) : Step Unit := do
  let l ← get
  let s := l.source
  let spaceNext := s.spaceAt 1
  if s.column == 0 && c == '%' then directive
  else if s.marker '-' then documentToken .documentStart
  else if s.marker '.' then documentToken .documentEnd
  else if c == '[' then openFlow .flowSeqStart
  else if c == '{' then openFlow .flowMapStart
  else if c == ']' then closeFlow .flowSeqEnd
  else if c == '}' then closeFlow .flowMapEnd
  else if c == ',' then flowEntry
  else if c == '-' && spaceNext then blockEntry
  else if c == '?' && (l.inFlow || spaceNext) then explicitKey
  else if c == ':' && (l.inFlow || spaceNext) then value
  else if c == '*' then name .alias
  else if c == '&' then name .anchor
  else if c == '!' then tag
  else if c == '|' && !l.inFlow then blockScalar true
  else if c == '>' && !l.inFlow then blockScalar false
  else if c == '\'' then quotedScalar true
  else if c == '"' then quotedScalar false
  else if isSpace c || "#|>%@`".toList.contains c then failure
  else plainScalar

/-- Reads the next token; tells whether the text has ended. -/
def step : Step Bool := do
  modify fun l => toToken (l.source.rest.length + 1) l
  dropStaleKeys
  modify fun l => closeBlocks l.source.column l
  match (← get).source.rest with
  | [] =>
    leaveBlocks
    return true
  | c :: _ =>
    token c
    return false

/-- Reads all tokens; every step but the last takes a character. -/
def run : Nat → Step Unit
  | 0 => failure
  | fuel + 1 => do if !(← step) then run fuel

end Lexer

/-- The tokens of a text, unless it is malformed. -/
def Token.ofText? (text : String) : Option (List Token) :=
  let chars := text.toList
  if chars.all isAllowed then do
    let ((), l) ← (Lexer.run (chars.length + 1)).run { source := { rest := chars } }
    return l.tokens.toList
  else none

end StoragePlan.Yaml

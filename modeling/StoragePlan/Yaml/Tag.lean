import StoragePlan.Text
import StoragePlan.Yaml.Source

/-!
# Tags and directives as they are written

A tag begins with an exclamation mark. It is a handle and a suffix (`!word`, `!!word`,
`!name!word`), where the handle stands for the first part of the tag, or it is complete (`!<text>`).
Directives, which come before a document, give the version of the language and the meaning of
handles. Each reader gives its parts and what follows them, or nothing if they are malformed.
-/

namespace StoragePlan.Yaml.Tag

/-- A character of a tag. A comma or a bracket is one only where no flow collection can be meant
(`wide`). -/
def isTagChar (wide : Bool) (c : Char) : Bool :=
  isWord c || ";/?:@&=+$.!~*'()".contains c || (wide && ",[]".contains c)

/-- Takes the bytes of a tag, last first. A percent sign with two hexadecimal digits is a byte. -/
def bytes (wide : Bool) : Nat → Source → List UInt8 → Option (List UInt8 × Source)
  | 0, s, taken => some (taken, s)
  | fuel + 1, s, taken =>
    match s.rest with
    | [] => some (taken, s)
    | c :: rest =>
      if c == '%' then do
        if rest.length < 2 then none
        let byte ← Numeral.ofDigits? 16 (rest.take 2)
        bytes wide fuel (s.skip 3) (UInt8.ofNat byte :: taken)
      else if isTagChar wide c then bytes wide fuel s.skip (c.toUInt8 :: taken)
      else some (taken, s)

/-- Reads text of a tag, which may be empty; a null character ends it. -/
def part (wide : Bool) (s : Source) : Option (String × Source) := do
  let (taken, s) ← bytes wide s.rest.length s []
  let text ← String.fromUTF8? (ByteArray.mk taken.reverse.toArray)
  return (String.ofList (text.toList.takeWhile (· != '\x00')), s)

/-- Reads text of a tag where something has to be written. -/
def text (wide : Bool) (s : Source) : Option (String × Source) := do
  let (text, t) ← part wide s
  if t.index = s.index then none else some (text, t)

/-- Reads a handle between exclamation marks, if there is one. -/
def named? (s : Source) : Option (String × Source) :=
  let (word, s) := s.skip.span isWord
  if s.starts '!' then some ("!" ++ String.ofList word ++ "!", s.skip) else none

/-- Reads a tag from its exclamation mark on: its handle, which is empty if the tag is complete, and
the rest of it. A single exclamation mark is a complete tag. -/
def tag (s : Source) : Option (String × String × Source) :=
  if s.rest[1]? == some '<' then do
    let (suffix, s) ← text true (s.skip 2)
    if s.starts '>' then some ("", suffix, s.skip) else none
  else
    match named? s with
    | some (handle, s) => do
      let (suffix, s) ← text false s
      return (handle, suffix, s)
    | none => do
      let (suffix, s) ← part false s.skip
      return if suffix.isEmpty then ("", "!", s) else ("!", suffix, s)

/-- Reads a number of at most nine digits. -/
def number (s : Source) : Option (Nat × Source) := do
  let (digits, s) := s.span Char.isDigit
  if 9 < digits.length then none
  return (← Numeral.ofDigits? 10 digits, s)

/-- Reads a version of the language: two numbers with a point between them. -/
def version (s : Source) : Option (Nat × Nat × Source) := do
  let (major, s) ← number s
  if !s.starts '.' then none
  let (minor, s) ← number s.skip
  return (major, minor, s)

/-- Reads the meaning of a handle: the handle, which may be a single exclamation mark, and the text
that it stands for. -/
def handle (s : Source) : Option (String × String × Source) := do
  if !s.starts '!' then none
  let (name, s) ← if s.rest[1]?.any isBlank then some ("!", s.skip) else named? s
  if !s.rest.head?.any isBlank then none
  let (uri, s) ← text true (s.span isBlank).2
  if s.spaceAt 0 then some (name, uri, s) else none

end StoragePlan.Yaml.Tag

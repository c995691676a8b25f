/-!
# Reading characters

A `Source` is what is left of a text and where it stands. Positions matter in YAML: block structure
is told from columns, and the key of a mapping entry has to be on one line.
-/

namespace StoragePlan.Yaml

/-- A character that ends a line. -/
def isBreak (c : Char) : Bool :=
  c == '\n' || c == '\r' || c == '\u0085' || c == '\u2028' || c == '\u2029'

/-- A blank within a line. -/
def isBlank (c : Char) : Bool := c == ' ' || c == '\t'

/-- A character that separates words. -/
def isSpace (c : Char) : Bool := isBlank c || isBreak c

/-- The text a line break stands for: all but the Unicode separators are line feeds. -/
def breakChar (c : Char) : Char := if c == '\u2028' || c == '\u2029' then c else '\n'

/-- A character of names: of anchors and of tags. -/
def isWord (c : Char) : Bool := c.isAlphanum || c == '_' || c == '-'

/-- A character that a document may contain. -/
def isAllowed (c : Char) : Bool :=
  c == '\t' || c == '\n' || c == '\r' || (0x20 ≤ c.toNat && c.toNat ≤ 0x7E) || c.toNat == 0x85 ||
    (0xA0 ≤ c.toNat && c.toNat ≤ 0xD7FF) || (0xE000 ≤ c.toNat && c.toNat ≤ 0xFFFD) ||
    0x10000 ≤ c.toNat

/-- The rest of a text and its position. -/
structure Source where
  /-- The characters to come. -/
  rest : List Char
  /-- The line, from 0. -/
  line : Nat := 0
  /-- The column, from 0. -/
  column : Nat := 0
  /-- The number of characters before. -/
  index : Nat := 0

namespace Source

/-- Passes over `n` characters of one line. -/
def skip (s : Source) (n : Nat := 1) : Source :=
  { s with rest := s.rest.drop n, column := s.column + n, index := s.index + n }

/-- Passes over a line break, which may have two characters. -/
def skipBreak (s : Source) : Source :=
  let n := match s.rest with
    | '\r' :: '\n' :: _ => 2
    | _ => 1
  ⟨s.rest.drop n, s.line + 1, 0, s.index + n⟩

/-- Takes the characters of a line up to the first that fails a test. -/
def span (p : Char → Bool) (s : Source) : List Char × Source :=
  let taken := s.rest.takeWhile p
  (taken, s.skip taken.length)

/-- Whether the rest begins with the character. -/
def starts (s : Source) (c : Char) : Bool := s.rest.head? == some c

/-- Whether the character at the offset is a space or lies beyond the end. -/
def spaceAt (s : Source) (n : Nat) : Bool := s.rest[n]?.all isSpace

/-- Whether the rest begins, in the first column, with three of the character and then a space. -/
def marker (s : Source) (c : Char) : Bool :=
  s.column == 0 && s.rest.take 3 == [c, c, c] && s.spaceAt 3

/-- Whether the rest begins with the start or the end of a document. -/
def documentMarker (s : Source) : Bool := s.marker '-' || s.marker '.'

end Source

end StoragePlan.Yaml

import StoragePlan.Yaml.Schema
import StoragePlan.Yaml.Source

/-!
# Writing documents

Documents are written in block style with two columns of indentation; a sequence is not indented
deeper than its key, and empty collections are written in brackets.

A string is plain where it reads back as the same string. Otherwise it is in single quotes, or in
double quotes if it has characters that need escapes, or a literal block if it has line feeds. The
tag of a scalar stands in front of it; collections are written without tags.
-/

namespace StoragePlan.Yaml

/-! ### Styles of strings -/

/-- A character that can be written as it is. -/
def isPrintable (c : Char) : Bool :=
  c == '\n' || (0x20 ≤ c.toNat && c.toNat ≤ 0x7E) || (0xA0 ≤ c.toNat && c.toNat ≤ 0xD7FF) ||
    (0xE000 ≤ c.toNat && c.toNat ≤ 0xFFFD && c != '\ufeff') || 0x10000 ≤ c.toNat

/-- A character that has a meaning of its own at the start of a node. -/
def isIndicator (c : Char) : Bool := ",[]\x7b\x7d#&*!|>'\"%@`".toList.contains c

/-- Whether a pair of neighbors in the list passes a test. -/
def anyPair (p : Char → Char → Bool) (cs : List Char) : Bool :=
  (cs.zip (cs.drop 1)).any fun (a, b) => p a b

/-- Whether a line feed is followed by a space, which quotes would fold away. -/
def hasBreakSpace (cs : List Char) : Bool := anyPair (fun a b => isBreak a && b == ' ') cs

/-- Whether a space is followed by a line break. -/
def hasSpaceBreak (cs : List Char) : Bool := anyPair (fun a b => a == ' ' && isBreak b) cs

/-- Whether the text has a colon before a space or at its end, or a hash after a space. -/
def hasSeparator (cs : List Char) : Bool :=
  cs.getLast? == some ':' ||
    anyPair (fun a b => (a == ':' && isSpace b) || (isSpace a && b == '#')) cs

/-- Whether the text begins like something other than a plain scalar. -/
def startsSpecial (cs : List Char) : Bool :=
  cs.take 3 == ['-', '-', '-'] || cs.take 3 == ['.', '.', '.'] ||
    match cs with
    | c :: rest => isIndicator c || ((c == '-' || c == '?') && rest.head?.all isSpace)
    | [] => false

/-- Whether the text can be a plain scalar of one line. -/
def fitsPlain (cs : List Char) : Bool :=
  cs.all isPrintable && !cs.any isBreak && cs.head? != some ' ' && cs.getLast? != some ' ' &&
    !startsSpecial cs && !hasSeparator cs

/-- Whether the text can be in single quotes. -/
def fitsSingle (cs : List Char) : Bool :=
  cs.all isPrintable && !hasBreakSpace cs && !hasSpaceBreak cs

/-- Whether the text can be a literal block. -/
def fitsLiteral (cs : List Char) : Bool :=
  !cs.isEmpty && cs.all isPrintable && !hasSpaceBreak cs && cs.getLast? != some ' '

/-- Whether a string has to be quoted to read back as the same string. -/
def needsQuotes (s : String) : Bool :=
  Meaning.ofText s != .text || Meaning.hasLeadingZero s.toList || !fitsPlain s.toList

namespace Tree

/-- A string. -/
def ofString (s : String) : Tree := .scalar none (needsQuotes s) s

end Tree

namespace Writer

/-- Blanks up to a column. -/
def blanks (n : Nat) : String := "".pushn ' ' n

/-- The text in single quotes. Lines go on at the given column. -/
def single (column : Nat) (s : String) : String :=
  let step := fun ((out, broken) : String × Bool) (c : Char) =>
    if isBreak c then (out.push c, true)
    else
      let out := if broken then out ++ blanks column else out
      (if c == '\'' then out ++ "''" else out.push c, false)
  let (out, broken) := s.toList.foldl step ("", false)
  "'" ++ (if broken then out ++ blanks column else out) ++ "'"

/-- A character in double quotes. -/
def escaped (c : Char) : String :=
  match c with
  | '\x00' => "\\0"
  | '\x07' => "\\a"
  | '\x08' => "\\b"
  | '\t' => "\\t"
  | '\n' => "\\n"
  | '\x0b' => "\\v"
  | '\x0c' => "\\f"
  | '\r' => "\\r"
  | '\x1b' => "\\e"
  | '"' => "\\\""
  | '\\' => "\\\\"
  | '\u0085' => "\\N"
  | '\u00a0' => "\\_"
  | '\u2028' => "\\L"
  | '\u2029' => "\\P"
  | c =>
    let hex := fun width => (Numeral.hex width c.toNat).map Char.toUpper
    if c.toNat ≤ 0xFF then "\\x" ++ hex 2
    else if c.toNat ≤ 0xFFFF then "\\u" ++ hex 4
    else "\\U" ++ hex 8

/-- The text in double quotes. -/
def double (s : String) : String :=
  let escape := fun c =>
    if !isPrintable c || isBreak c || c == '"' || c == '\\' then escaped c else c.toString
  "\"" ++ String.join (s.toList.map escape) ++ "\""

/-- How a literal block treats the line breaks at its end: all but one are dropped without a sign,
a minus drops that one too, a plus keeps all. -/
def chomp (cs : List Char) : String :=
  match cs.reverse with
  | [] => "-"
  | [c] => if isBreak c then "+" else "-"
  | c :: d :: _ => if !isBreak c then "-" else if isBreak d then "+" else ""

/-- The head of a literal block; a text that begins with a space needs the indentation spelled. -/
def literalHead (cs : List Char) : String :=
  "|" ++ (if cs.head?.any fun c => c == ' ' || isBreak c then "2" else "") ++ chomp cs

/-- The text as a literal block with its lines at the given column. -/
def literal (column : Nat) (s : String) : String :=
  let step := fun ((out, fresh) : String × Bool) (c : Char) =>
    if isBreak c then (out.push c, true)
    else ((if fresh then out ++ blanks column else out).push c, false)
  literalHead s.toList ++ (s.toList.foldl step ("\n", true)).1

/-- A scalar as the value of an entry or as an item; its further lines go on at the column. -/
def scalar (column : Nat) (quoted : Bool) (s : String) : String :=
  let cs := s.toList
  if !quoted then s
  else if cs.contains '\n' then if fitsLiteral cs then literal column s else double s
  else if fitsSingle cs then single column s
  else double s

/-- The tag of a scalar, in front of it. -/
def tagText : Option String → String
  | some tag => tag ++ " "
  | none => ""

/-- The text with a line feed, unless it ends with a line break. -/
def endLine (s : String) : String := if s.toList.getLast?.any isBreak then s else s.push '\n'

/-- Whether a string can be a key in front of its colon. -/
def fitsKey (s : String) : Bool := !s.toList.any isBreak && s.utf8ByteSize ≤ 128

mutual

/-- A node at a column, from where it stands to the end of its last line. -/
def node (column : Nat) : Tree → String
  | .scalar tag quoted text => endLine (tagText tag ++ scalar column quoted text)
  | .seq _ [] => "[]\n"
  | .seq _ items => seqItems column true items
  | .map _ [] => "\x7b\x7d\n"
  | .map _ entries => mapEntries column true entries

/-- The items of a sequence at a column; the first stands there already. -/
def seqItems (column : Nat) (first : Bool) : List Tree → String
  | [] => ""
  | item :: rest =>
    (if first then "" else blanks column) ++ "- " ++ node (column + 2) item ++
      seqItems column false rest

/-- The entries of a mapping at a column; the first stands there already. -/
def mapEntries (column : Nat) (first : Bool) : List (Tree × Tree) → String
  | [] => ""
  | (key, value) :: rest =>
    (if first then "" else blanks column) ++ keyText column key ++ valueText column value ++
      mapEntries column false rest

/-- A key with its colon; one that does not fit on a line stands after a question mark. -/
def keyText (column : Nat) : Tree → String
  | .scalar tag quoted text =>
    if fitsKey text then tagText tag ++ scalar (column + 2) quoted text ++ ":"
    else "? " ++ endLine (tagText tag ++ scalar (column + 2) quoted text) ++ blanks column ++ ":"
  | _ => "?:"

/-- What follows the colon after a key. -/
def valueText (column : Nat) : Tree → String
  | .scalar tag quoted text => endLine (" " ++ tagText tag ++ scalar (column + 2) quoted text)
  | .seq _ [] => " []\n"
  | .seq _ items => "\n" ++ blanks column ++ seqItems column true items
  | .map _ [] => " \x7b\x7d\n"
  | .map _ entries => "\n" ++ blanks (column + 2) ++ mapEntries (column + 2) true entries

end

end Writer

/-- The text of a document. -/
def Tree.text (root : Tree) : String := Writer.node 0 root

end StoragePlan.Yaml

/-! ### Building documents

Trees for numbers, truth values, lists of strings and mappings with fixed keys. -/

namespace StoragePlan.Yaml.Tree

/-- A number. -/
def number (n : Nat) : Tree := .plain (toString n)

/-- A truth value. -/
def flag (b : Bool) : Tree := .plain (if b then "true" else "false")

/-- A list of strings. -/
def strings (texts : List String) : Tree := .seq none (texts.map ofString)

/-- A mapping with fixed keys. -/
def record (entries : List (String × Tree)) : Tree :=
  .map none (entries.map fun (k, v) => (plain k, v))

/-- A word with an argument. -/
def variant (word : String) (argument : Tree) : Tree := record [(word, argument)]

end StoragePlan.Yaml.Tree

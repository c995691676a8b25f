/-!
# Texts

Numbers in other bases, JSON, white space and the DOT language, as far as texts are read or written
in them.
-/

/-! ### Numerals in other bases

Reading digits of a base up to 16 and writing hexadecimal numbers padded with zeros. -/

namespace StoragePlan.Numeral

/-- The value of a digit, of either case. -/
def digit? (c : Char) : Option Nat :=
  if '0' ≤ c && c ≤ '9' then some (c.toNat - 48)
  else if 'a' ≤ c && c ≤ 'f' then some (c.toNat - 87)
  else if 'A' ≤ c && c ≤ 'F' then some (c.toNat - 55)
  else none

/-- The number that digits of a base spell; none without digits or with a character that is no
digit of the base. -/
def ofDigits? (base : Nat) (digits : List Char) : Option Nat :=
  if digits.isEmpty then none
  else digits.foldlM (fun n c => do
    let d ← digit? c
    if d < base then some (n * base + d) else none) 0

/-- The number written with at least `width` lower-case hexadecimal digits. -/
def hex (width n : Nat) : String :=
  let digits := String.ofList (Nat.toDigits 16 n)
  "".pushn '0' (width - digits.length) ++ digits

end StoragePlan.Numeral

/-! ### JSON text

Writing strings and objects of strings as compact JSON. Only quotes, backslashes and control
characters are escaped. -/

namespace StoragePlan.Json

/-- A character of a string in quotes. -/
def escape (c : Char) : String :=
  match c with
  | '"' => "\\\""
  | '\\' => "\\\\"
  | '\n' => "\\n"
  | '\r' => "\\r"
  | '\t' => "\\t"
  | '\x08' => "\\b"
  | '\x0c' => "\\f"
  | c => if c.toNat < 0x20 then "\\u" ++ Numeral.hex 4 c.toNat else c.toString

/-- A string in quotes. -/
def string (s : String) : String := "\"" ++ String.join (s.toList.map escape) ++ "\""

/-- An object whose values are strings. -/
def object (fields : List (String × String)) : String :=
  "\x7b" ++ ",".intercalate (fields.map fun (k, v) => string k ++ ":" ++ string v) ++ "\x7d"

end StoragePlan.Json

/-! ### White space

The characters with the property of white space in Unicode, and texts without them at both ends. -/

namespace StoragePlan.Space

/-- Whether a character is white space. -/
def isSpace (c : Char) : Bool :=
  let n := c.toNat
  (0x09 ≤ n && n ≤ 0x0D) || (0x2000 ≤ n && n ≤ 0x200A) ||
    [0x20, 0x85, 0xA0, 0x1680, 0x2028, 0x2029, 0x202F, 0x205F, 0x3000].contains n

/-- The text without the white space at its start and its end. -/
def trim (cs : List Char) : List Char :=
  ((cs.dropWhile isSpace).reverse.dropWhile isSpace).reverse

end StoragePlan.Space

/-! ### The DOT language

Graph drawings are written as DOT: one line for each node and each edge, with attributes in
brackets. A text attribute stands in double quotes, and each double quote in it is escaped. -/

namespace StoragePlan.Dot

/-- The characters of a text in double quotes. -/
def escapeChars : List Char → List Char
  | [] => []
  | c :: rest => if c = '"' then '\\' :: '"' :: escapeChars rest else c :: escapeChars rest

/-- A text as it stands between double quotes. -/
def escape (text : String) : String := String.ofList (escapeChars text.toList)

/-- A drawing: the lines between the braces, behind its name. -/
def graph (name : String) (lines : List String) : String :=
  "digraph " ++ name ++ " \x7b\n" ++
    String.join (lines.map fun line => "    " ++ line ++ "\n") ++ "\x7d\n"

end StoragePlan.Dot

import StoragePlan.Text

/-!
# Universally unique identifiers

A uuid is a 128-bit number. It is written as 32 hexadecimal digits in groups of 8, 4, 4, 4 and 12;
it is also read without hyphens, in braces or after `urn:uuid:`, with letters of either case.
-/

namespace StoragePlan

/-- A 128-bit identifier. -/
structure Uuid where
  /-- The number. -/
  value : Nat
  deriving DecidableEq, Repr

namespace Uuid

/-- Cuts the list into parts of the given lengths; what is left over is dropped. -/
def cut {α : Type} : List Nat → List α → List (List α)
  | [], _ => []
  | n :: ns, xs => xs.take n :: cut ns (xs.drop n)

/-- The lengths of the groups of digits. -/
def groups : List Nat := [8, 4, 4, 4, 12]

/-- The digits in groups, joined by hyphens. -/
def text (u : Uuid) : String :=
  "-".intercalate ((cut groups (Numeral.hex 32 u.value).toList).map String.ofList)

/-- Reads 32 digits. -/
def ofDigits? (digits : List Char) : Option Uuid :=
  if digits.length = 32 then (Numeral.ofDigits? 16 digits).map Uuid.mk else none

/-- Reads five groups of digits with hyphens between them. -/
def ofHyphenated? (text : String) : Option Uuid :=
  let parts := text.toList.splitOn '-'
  if parts.map List.length = groups then ofDigits? parts.flatten else none

/-- Reads a uuid in any of its spellings. -/
def ofText? (text : String) : Option Uuid :=
  if text.length = 32 then ofDigits? text.toList
  else if text.length = 36 then ofHyphenated? text
  else if (text.take 9).copy.toLower = "urn:uuid:" then ofHyphenated? (text.drop 9).copy
  else if text.startsWith "\x7b" && text.endsWith "\x7d" then
    ofHyphenated? ((text.drop 1).dropEnd 1).copy
  else none

end Uuid

end StoragePlan

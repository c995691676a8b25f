/-!
# Words for values

Filesystem types, holder kinds and the like are written as fixed words. `Named` gives a type its
values in order and the word for each; `Named.ofName?` reads a word back.
-/

namespace StoragePlan

/-- A type whose values are written as words. -/
class Named (α : Type) where
  /-- All values, in order. -/
  all : List α
  /-- The word for a value. -/
  name : α → String

namespace Named

variable {α : Type} [Named α]

/-- The value that a word stands for; case matters. -/
def ofName? (word : String) : Option α := (all : List α).find? fun a => name a == word

/-- The words in a list of alternatives, each between back quotes. -/
def alternatives : List String → String
  | [] => "there are no variants"
  | [a] => s!"expected `{a}`"
  | [a, b] => s!"expected `{a}` or `{b}`"
  | words => "expected one of " ++ ", ".intercalate (words.map fun w => s!"`{w}`")

/-- The complaint about a word that stands for no value of `α`. -/
def unknownWord (α : Type) [Named α] (word : String) : String :=
  s!"unknown variant `{word}`, " ++ alternatives ((all : List α).map name)

end Named

end StoragePlan

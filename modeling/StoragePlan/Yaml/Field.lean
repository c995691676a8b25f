import StoragePlan.Region
import StoragePlan.Vocabulary.Named
import StoragePlan.Yaml.Schema

/-!
# Reading typed data

What a node or a value gives where a certain type is expected. A node is read by its text: where a
string is expected any scalar is one, and where nothing is written a list or a mapping is empty. A
value has a type of its own, and only the expected one will do.

Mappings with fixed keys are read as fields: no known key may be repeated, and unknown keys are
refused or ignored.
-/

namespace StoragePlan.Yaml

namespace Tree

/-- The text of any scalar. -/
def string? : Tree → Option String
  | scalar _ _ text => some text
  | _ => none

/-- The number of a plain scalar, if it fits 64 bits. -/
def natural? : Tree → Option Nat
  | scalar _ false text => (Meaning.natural? text).filter (· ≤ maxWord)
  | _ => none

/-- The truth value of a plain scalar. -/
def bool? : Tree → Option Bool
  | scalar _ false text => Meaning.bool? text
  | _ => none

/-- The items of a sequence. -/
def items? : Tree → Option (List Tree)
  | seq _ items => some items
  | n => if n.isVoid then some [] else none

/-- The entries of a mapping with scalars as keys. -/
def entries? : Tree → Option (List (String × Tree))
  | map _ entries => entries.mapM fun (k, v) => do return (← k.string?, v)
  | n => if n.isVoid then some [] else none

/-- Whether a plain scalar says that there is nothing. -/
def isNull : Tree → Bool
  | scalar _ false text => text.isEmpty || Meaning.isNull text
  | _ => false

/-- Reads what may be missing. An untagged plain scalar that says so is none; one with the tag for
null has to say so. -/
def option? {α : Type} (read : Tree → Option α) (n : Tree) : Option (Option α) :=
  match n with
  | scalar (some tag) false text =>
    if tag = coreTag "null" then if Meaning.isNull text then some none else none
    else (read n).map some
  | n => if n.isNull then some none else (read n).map some

/-- The text of the node as a word with an argument: a tag of its own with the node as the argument,
or a scalar without one. -/
def word? (n : Tree) : Option (String × Option Tree) :=
  match n.tag?.filter isLocal, n with
  | none, scalar _ _ text => some (text, none)
  | some tag, scalar _ quoted text => some ((tag.drop 1).copy, some (.scalar none quoted text))
  | some tag, seq _ items => some ((tag.drop 1).copy, some (.seq none items))
  | some tag, map _ entries => some ((tag.drop 1).copy, some (.map none entries))
  | none, seq _ _ | none, map _ _ => none

/-- The value that a word stands for; as a tag, the word takes no argument. -/
def named? {α : Type} [Named α] (n : Tree) : Option α := do
  let (word, argument) ← n.word?
  if argument.all isNull then Named.ofName? word else none

end Tree

namespace Value

/-- The text of a string. -/
def text? : Value → Option String
  | text s => some s
  | _ => none

/-- The number, if it is from 0 up to the bound. -/
def natural? (bound : Nat) : Value → Option Nat
  | natural n => if n ≤ bound then some n else none
  | negative 0 => some 0
  | _ => none

/-- A number of 64 bits. -/
def word? (v : Value) : Option Nat := v.natural? maxWord

/-- The truth value. -/
def bool? : Value → Option Bool
  | bool b => some b
  | _ => none

/-- The items of a list. -/
def list? : Value → Option (List Value)
  | list items => some items
  | _ => none

/-- The strings of a list of strings. -/
def strings? (v : Value) : Option (List String) := do (← v.list?).mapM text?

/-- What a value is that may be null. -/
def option? {α : Type} (read : Value → Option α) : Value → Option (Option α)
  | null => some none
  | v => (read v).map some

/-- The entries of a mapping with strings as keys. -/
def entries? : Value → Option (List (String × Value))
  | map entries => entries.mapM fun (k, v) => do return (← k.text?, v)
  | _ => none

/-- Whether there is nothing. -/
def isEmpty : Value → Bool
  | null | map [] => true
  | _ => false

/-- What a value is whose word may also be the only key of a mapping to null. -/
def named? {α : Type} [Named α] : Value → Option α
  | text word | map [(text word, null)] => Named.ofName? word
  | _ => none

/-- What a key stands for: a word, or a place among all values. -/
def key? {α : Type} [Named α] : Value → Option α
  | text word => Named.ofName? word
  | natural place => (Named.all : List α)[place]?
  | _ => none

/-- What a value is whose word may also be the only key of a mapping to nothing; such a key can be a
place as well. -/
def choice? {α : Type} [Named α] : Value → Option α
  | text word => Named.ofName? word
  | map [(k, argument)] => if argument.isEmpty then k.key? else none
  | _ => none

end Value

/-- The entries with known keys, none of which may be repeated. Entries with other keys are dropped,
or refused if `strict`. -/
def fields? {α : Type} (known : List String) (strict : Bool) (entries : List (String × α)) :
    Option (List (String × α)) :=
  let (ours, others) := entries.partition fun (k, _) => known.contains k
  if (strict && !others.isEmpty) || (ours.map Prod.fst).eraseDups.length < ours.length then none
  else some ours

/-- Reads the field of a key, which has to be there. -/
def required? {α β : Type} (key : String) (read : α → Option β) (fields : List (String × α)) :
    Option β := do read (← fields.lookup key)

/-- Reads the field of a key, or takes the default if there is none. -/
def optional? {α β : Type} (key : String) (read : α → Option β) (default : β)
    (fields : List (String × α)) : Option β :=
  match fields.lookup key with
  | some a => read a
  | none => some default

end StoragePlan.Yaml

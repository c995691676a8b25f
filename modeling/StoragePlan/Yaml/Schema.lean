import StoragePlan.Text
import StoragePlan.Yaml.Tree

/-!
# What plain scalars mean

A plain scalar is null, a boolean, an integer, a float or, failing these, a string. Integers are
decimal, or hexadecimal, octal or binary behind `0x`, `0o` or `0b`; a decimal one has no leading
zeros, so such a scalar is a string.
-/

namespace StoragePlan.Yaml

/-- The meaning of a plain scalar. -/
inductive Meaning where
  | null
  | bool (value : Bool)
  /-- An integer without a minus sign, of at most 64 bits. -/
  | natural (value : Nat)
  /-- The size of an integer behind a minus sign, from `-2 ^ 63` on. -/
  | negative (value : Nat)
  /-- Any other integer of at most 128 bits. -/
  | wideInt
  /-- A finite or an infinite number, or none. -/
  | float
  | text
  deriving DecidableEq

namespace Meaning

/-- The words for null. -/
def isNull (s : String) : Bool := ["null", "Null", "NULL", "~"].contains s

/-- The words for booleans. -/
def bool? (s : String) : Option Bool :=
  if ["true", "True", "TRUE"].contains s then some true
  else if ["false", "False", "FALSE"].contains s then some false
  else none

/-- Drops a plus sign. -/
def dropPlus : List Char → List Char
  | '+' :: rest => rest
  | cs => cs

/-- Whether the text begins with a sign. -/
def isSigned (cs : List Char) : Bool := cs.head?.any fun c => c == '+' || c == '-'

/-- Digits behind a leading zero, with or without a sign. -/
def hasLeadingZero (cs : List Char) : Bool :=
  let digits := if isSigned cs then cs.drop 1 else cs
  1 < digits.length && digits.head? == some '0' && digits.all Char.isDigit

/-- The digits behind the mark of a base other than ten, with that base. -/
def based? : List Char → Option (Nat × List Char)
  | '0' :: 'x' :: rest => some (16, rest)
  | '0' :: 'o' :: rest => some (8, rest)
  | '0' :: 'b' :: rest => some (2, rest)
  | _ => none

/-- The size of an integer without its sign. -/
def magnitude? (cs : List Char) : Option Nat :=
  match based? cs with
  | some (base, digits) => Numeral.ofDigits? base digits
  | none => if hasLeadingZero cs then none else Numeral.ofDigits? 10 cs

/-- A number from 0 on. -/
def natural? (s : String) : Option Nat := magnitude? (dropPlus s.toList)

/-- The size of a number behind a minus sign. -/
def negative? (s : String) : Option Nat :=
  match s.toList with
  | '-' :: cs => magnitude? cs
  | _ => none

/-- The parts of a decimal number: its digits as one number, how many there are, and the exponent of
ten that belongs to the last. -/
def decimal? (cs : List Char) : Option (Nat × Nat × Int) := do
  let whole := cs.takeWhile Char.isDigit
  let rest := cs.drop whole.length
  let (fraction, rest) := match rest with
    | '.' :: r => (r.takeWhile Char.isDigit, r.dropWhile Char.isDigit)
    | r => ([], r)
  let digits := whole ++ fraction
  let mantissa ← Numeral.ofDigits? 10 digits
  let exponent ← match rest with
    | [] => some 0
    | e :: r =>
      if e == 'e' || e == 'E' then do
        let n ← Numeral.ofDigits? 10 (if isSigned r then r.drop 1 else r)
        some (if r.head? == some '-' then -(n : Int) else n)
      else none
  return (mantissa, digits.length, exponent - fraction.length)

/-- Whether a decimal number rounds to a finite one of double precision. -/
def isFinite (mantissa digits : Nat) (exponent : Int) : Bool :=
  if mantissa == 0 || digits + exponent ≤ 308 then true
  else if 310 + digits < exponent then false
  else
    let limit := 1 <<< 1024 - 1 <<< 970
    match exponent with
    | .ofNat e => mantissa * Nat.pow 10 e < limit
    | .negSucc e => mantissa < limit * Nat.pow 10 (e + 1)

/-- Whether the text is a number of floating point. -/
def isFloat (s : String) : Bool :=
  let cs := s.toList
  let unsigned := dropPlus cs
  if cs.head? == some '+' && isSigned unsigned then false
  else if [".inf", ".Inf", ".INF"].contains (String.ofList unsigned) then true
  else if ["-.inf", "-.Inf", "-.INF", ".nan", ".NaN", ".NAN"].contains s then true
  else
    match decimal? (if isSigned unsigned then unsigned.drop 1 else unsigned) with
    | some (mantissa, digits, exponent) => isFinite mantissa digits exponent
    | none => false

/-- The meaning of a scalar that is no integer of at most 128 bits. -/
def ofOther (s : String) : Meaning :=
  if !hasLeadingZero s.toList && isFloat s then .float else .text

/-- The meaning of a plain scalar. -/
def ofText (s : String) : Meaning :=
  if s.isEmpty || isNull s then .null
  else
    match bool? s, natural? s, negative? s with
    | some b, _, _ => .bool b
    | none, some n, _ =>
      if n < 1 <<< 64 then .natural n else if n < 1 <<< 128 then .wideInt else ofOther s
    | none, none, some n =>
      if n ≤ 1 <<< 63 then .negative n else if n ≤ 1 <<< 127 then .wideInt else ofOther s
    | none, none, none => ofOther s

end Meaning

/-- What a node means by itself, when nothing is known about what should be there. A number behind a
minus sign is kept apart, even if it is zero. -/
inductive Value where
  | null
  | bool (value : Bool)
  | natural (value : Nat)
  /-- The size of a number behind a minus sign. -/
  | negative (value : Nat)
  | float
  | text (value : String)
  | list (items : List Value)
  | map (entries : List (Value × Value))
  deriving Inhabited

/-- Whether a tag is one for types that are not part of the language. -/
def isLocal (tag : String) : Bool := tag.startsWith "!"

/-- The tag of a type that is part of the language. -/
def coreTag (type : String) : String := "tag:yaml.org,2002:" ++ type

namespace Value

/-- The value of a meaning, for the text that has it; an integer beyond 64 bits has none. -/
def ofMeaning? (s : String) : Meaning → Option Value
  | .null => some .null
  | .bool b => some (.bool b)
  | .natural n => some (.natural n)
  | .negative n => some (.negative n)
  | .wideInt => none
  | .float => some .float
  | .text => some (.text s)

/-- The value of a scalar with a tag. Null, truth values and numbers have to be spelled as the tag
says. Types that are not part of the language have no value; anything else is a text. -/
def ofTagged? (tag s : String) : Option Value :=
  if isLocal tag then none
  else if tag = coreTag "null" then if Meaning.isNull s then some .null else none
  else if tag = coreTag "bool" then (Meaning.bool? s).map .bool
  else if tag = coreTag "int" then
    match Meaning.natural? s, Meaning.negative? s with
    | some n, _ => if n < 1 <<< 64 then some (.natural n) else none
    | none, some n => if n ≤ 1 <<< 63 then some (.negative n) else none
    | none, none => none
  else if tag = coreTag "float" then if Meaning.isFloat s then some .float else none
  else some (.text s)

/-- The value of a scalar. -/
def ofScalar? (tag : Option String) (quoted : Bool) (s : String) : Option Value :=
  match tag with
  | some tag => ofTagged? tag s
  | none => if quoted then some (.text s) else ofMeaning? s (Meaning.ofText s)

end Value

mutual

/-- The value of a node. Tags of types that are not part of the language have none. -/
def Tree.value? : Tree → Option Value
  | .scalar tag quoted text => Value.ofScalar? tag quoted text
  | .seq tag items => if tag.any isLocal then none else (values? items).map .list
  | .map tag entries => if tag.any isLocal then none else (pairs? entries).map .map

/-- The values of the items of a sequence. -/
def values? : List Tree → Option (List Value)
  | [] => some []
  | n :: rest => do return (← n.value?) :: (← values? rest)

/-- The values of the entries of a mapping. -/
def pairs? : List (Tree × Tree) → Option (List (Value × Value))
  | [] => some []
  | (k, v) :: rest => do return (← k.value?, ← v.value?) :: (← pairs? rest)

end

end StoragePlan.Yaml

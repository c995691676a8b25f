import StoragePlan.Text
import StoragePlan.Yaml.Source

/-!
# Scalars as they are written

Plain scalars, scalars in quotes and block scalars. Lines of plain and quoted scalars are folded: a
single line break reads as a space, and of several the first is dropped. Each reader gives the text
and what follows it, or nothing if the scalar is malformed.
-/

namespace StoragePlan.Yaml.Scalar

/-! ### Folding lines -/

/-- The spaces between two words. -/
inductive Gap where
  /-- Blanks of one line, last first. -/
  | blanks (chars : List Char)
  /-- Line breaks: the first, unless it was escaped, and the further ones, last first. -/
  | breaks (first : Option Char) (more : List Char)

/-- The text that the spaces stand for. -/
def Gap.text : Gap → List Char
  | .blanks chars => chars.reverse
  | .breaks (some '\n') [] => [' ']
  | .breaks (some '\n') more => more.reverse
  | .breaks first more => first.toList ++ more.reverse

/-- Whether a line ended. -/
def Gap.isBroken : Gap → Bool
  | .blanks _ => false
  | .breaks _ _ => true

/-- Takes the spaces. A tab left of the given column after a line break is malformed. -/
def takeGap (column : Int) : Nat → Source → Gap → Option (Gap × Source)
  | 0, s, gap => some (gap, s)
  | fuel + 1, s, gap =>
    match s.rest, gap with
    | c :: _, .blanks chars =>
      if isBlank c then takeGap column fuel s.skip (.blanks (c :: chars))
      else if isBreak c then takeGap column fuel s.skipBreak (.breaks (some (breakChar c)) [])
      else some (gap, s)
    | c :: _, .breaks first more =>
      if c == '\t' && s.column < column then none
      else if isBlank c then takeGap column fuel s.skip gap
      else if isBreak c then takeGap column fuel s.skipBreak (.breaks first (breakChar c :: more))
      else some (gap, s)
    | [], _ => some (gap, s)

/-! ### Plain scalars -/

/-- A character that structures flow collections. -/
def isFlowIndicator (c : Char) : Bool := c == ',' || c == '[' || c == ']' || c == '{' || c == '}'

/-- Takes a word of a plain scalar; a colon that could be meant as a separator is malformed. -/
def plainWord (inFlow : Bool) : List Char → Option (List Char)
  | [] => some []
  | c :: rest =>
    if isSpace c then some []
    else if inFlow && c == ':' && rest.head?.any (fun d => isFlowIndicator d || d == '?') then none
    else if c == ':' && rest.head?.all isSpace then some []
    else if inFlow && isFlowIndicator c then some []
    else (plainWord inFlow rest).map (c :: ·)

/-- Takes words and the spaces between them. The scalar ends before a comment, a document marker and
(outside of flow collections) a line that starts left of `column`. -/
def plainWords (inFlow : Bool) (column : Int) :
    Nat → Source → List Char → Gap → Option (List Char × Bool × Source)
  | 0, s, text, gap => some (text, gap.isBroken, s)
  | fuel + 1, s, text, gap => do
    if s.documentMarker || s.starts '#' then return (text, gap.isBroken, s)
    let word ← plainWord inFlow s.rest
    let (text, gap) := if word.isEmpty then (text, gap) else (text ++ gap.text ++ word, .blanks [])
    let s := s.skip word.length
    if !s.rest.head?.any isSpace then return (text, gap.isBroken, s)
    let (gap, s) ← takeGap column s.rest.length s gap
    if !inFlow && s.column < column then return (text, gap.isBroken, s)
    plainWords inFlow column fuel s text gap

/-- Reads a plain scalar; tells also whether a line ended after its last word. -/
def plain (inFlow : Bool) (column : Int) (s : Source) : Option (String × Bool × Source) := do
  let (text, broken, s) ← plainWords inFlow column (s.rest.length + 1) s [] (.blanks [])
  return (String.ofList text, broken, s)

/-! ### Quoted scalars -/

/-- The character that an escape with one letter stands for. -/
def escaped? : Char → Option Char
  | '0' => some '\x00'
  | 'a' => some '\x07'
  | 'b' => some '\x08'
  | 't' | '\t' => some '\t'
  | 'n' => some '\n'
  | 'v' => some '\x0b'
  | 'f' => some '\x0c'
  | 'r' => some '\r'
  | 'e' => some '\x1b'
  | ' ' => some ' '
  | '"' => some '"'
  | '/' => some '/'
  | '\\' => some '\\'
  | 'N' => some '\u0085'
  | '_' => some '\u00a0'
  | 'L' => some '\u2028'
  | 'P' => some '\u2029'
  | _ => none

/-- How many hexadecimal digits follow the letter of an escape. -/
def escapeDigits? : Char → Option Nat
  | 'x' => some 2
  | 'u' => some 4
  | 'U' => some 8
  | _ => none

/-- Reads an escape after its backslash: the character and how many characters it takes. -/
def escape? : List Char → Option (Char × Nat)
  | [] => none
  | c :: rest =>
    match escapeDigits? c with
    | none => (escaped? c).map (·, 1)
    | some n => do
      let digits := rest.take n
      if digits.length < n then none
      let code ← Numeral.ofDigits? 16 digits
      if code.isValidChar then some (Char.ofNat code, n + 1) else none

/-- Takes the characters of a quoted scalar up to a space or the closing quote, last first. Two
single quotes stand for one; a backslash in double quotes begins an escape, which may be a line
break that is not there. -/
def quotedWord (single : Bool) : Nat → Source → List Char → Option (List Char × Option Gap × Source)
  | 0, s, text => some (text, none, s)
  | fuel + 1, s, text =>
    match s.rest with
    | [] => some (text, none, s)
    | c :: rest =>
      if isSpace c then some (text, none, s)
      else if single then
        if c == '\'' then
          if rest.head? == some '\'' then quotedWord single fuel (s.skip 2) ('\'' :: text)
          else some (text, none, s)
        else quotedWord single fuel s.skip (c :: text)
      else if c == '"' then some (text, none, s)
      else if c == '\\' then
        if rest.head?.any isBreak then some (text, some (.breaks none []), s.skip.skipBreak)
        else do
          let (d, n) ← escape? rest
          quotedWord single fuel (s.skip (n + 1)) (d :: text)
      else quotedWord single fuel s.skip (c :: text)

/-- Takes words and the spaces between them up to the closing quote. -/
def quotedWords (single : Bool) : Nat → Source → List Char → Option (List Char × Source)
  | 0, _, _ => none
  | fuel + 1, s, text => do
    if s.documentMarker || s.rest.isEmpty then none
    let (text, gap, s) ← quotedWord single (s.rest.length + 1) s text
    if gap.isNone && s.starts (if single then '\'' else '"') then return (text, s.skip)
    let (gap, s) ← takeGap 0 (s.rest.length + 1) s (gap.getD (.blanks []))
    quotedWords single fuel s (gap.text.reverse ++ text)

/-- Reads a quoted scalar, from its opening quote on. -/
def quoted (single : Bool) (s : Source) : Option (String × Source) := do
  let (text, s) ← quotedWords single (s.rest.length + 1) s.skip []
  return (String.ofList text.reverse, s)

/-! ### Block scalars -/

/-- What happens to the line breaks at the end of a block scalar. -/
inductive Chomp where
  /-- All are dropped. -/
  | strip
  /-- The first is kept. -/
  | clip
  /-- All are kept. -/
  | keep
  deriving DecidableEq

/-- Reads a chomping indicator. -/
def chomp? (s : Source) : Option (Chomp × Source) :=
  if s.starts '+' then some (.keep, s.skip)
  else if s.starts '-' then some (.strip, s.skip)
  else none

/-- Reads an indentation indicator, a digit but 0. -/
def increment? (s : Source) : Option (Option Nat × Source) :=
  match s.rest with
  | c :: _ =>
    if c == '0' then none
    else if c.isDigit then some (some (c.toNat - 48), s.skip)
    else some (none, s)
  | [] => some (none, s)

/-- Reads the indicators of a block scalar, in either order. -/
def header (s : Source) : Option (Chomp × Option Nat × Source) :=
  match chomp? s with
  | some (chomp, s) => do
    let (increment, s) ← increment? s
    return (chomp, increment, s)
  | none => do
    let (increment, s) ← increment? s
    match increment, chomp? s with
    | some _, some (chomp, s) => return (chomp, increment, s)
    | _, _ => return (.clip, increment, s)

/-- Passes over the rest of a line that holds only blanks and a comment. -/
def restOfLine (s : Source) : Option Source :=
  let s := (s.span isBlank).2
  let s := if s.starts '#' then (s.span fun c => !isBreak c).2 else s
  if s.rest.head?.all isBreak then some (if s.rest.isEmpty then s else s.skipBreak) else none

/-- Takes the indentation and empty lines before a line of text: the line breaks, last first, and
the widest indentation met. Without a known indentation, blanks are taken as far as they go; a tab
in the indentation is malformed. -/
def takeIndent (indent : Option Nat) : Nat → Source → List Char → Nat →
    Option (List Char × Nat × Source)
  | 0, s, breaks, widest => some (breaks, widest, s)
  | fuel + 1, s, breaks, widest =>
    let room := match indent with
      | some n => n - s.column
      | none => s.rest.length
    let s := s.skip ((s.rest.take room).takeWhile (· == ' ')).length
    let widest := max widest s.column
    match s.rest with
    | c :: _ =>
      if c == '\t' && indent.all (s.column < ·) then none
      else if isBreak c then takeIndent indent fuel s.skipBreak (breakChar c :: breaks) widest
      else some (breaks, widest, s)
    | [] => some (breaks, widest, s)

/-- Takes the lines of a block scalar. `pending` is the break after the line before, `breaks` those
of the empty lines since (last first), and `blankBefore` tells whether the line before began with a
blank; such lines are not folded. -/
def blockLines (literal : Bool) (indent : Nat) :
    Nat → Source → List Char → Option Char → List Char → Bool →
    Option (List Char × Option Char × List Char × Source)
  | 0, s, text, pending, breaks, _ => some (text, pending, breaks, s)
  | fuel + 1, s, text, pending, breaks, blankBefore => do
    if s.column != indent || s.rest.isEmpty then return (text, pending, breaks, s)
    let blank := s.rest.head?.any isBlank
    let joint :=
      if !literal && pending == some '\n' && !blankBefore && !blank then
        if breaks.isEmpty then [' '] else []
      else pending.toList
    let (line, s) := s.span fun c => !isBreak c
    let text := text ++ joint ++ breaks.reverse ++ line
    let pending := s.rest.head?.map breakChar
    let s := if s.rest.isEmpty then s else s.skipBreak
    let (breaks, _, s) ← takeIndent (some indent) (s.rest.length + 1) s [] 0
    blockLines literal indent fuel s text pending breaks blank

/-- Reads a block scalar from its indicator on, inside a block of the given indentation (-1 outside
of all blocks). -/
def block (literal : Bool) (outer : Int) (s : Source) : Option (String × Source) := do
  let (chomp, increment, s) ← header s.skip
  let s ← restOfLine s
  let fixed := increment.map fun n => (max outer 0).toNat + n
  let (breaks, widest, s) ← takeIndent fixed (s.rest.length + 1) s [] 0
  let indent := fixed.getD (max (max widest (outer + 1).toNat) 1)
  let (text, pending, breaks, s) ←
    blockLines literal indent (s.rest.length + 1) s [] none breaks false
  let text := if chomp = .strip then text else text ++ pending.toList
  let text := if chomp = .keep then text ++ breaks.reverse else text
  return (String.ofList text, s)

end StoragePlan.Yaml.Scalar

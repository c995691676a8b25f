import Mathlib.Data.List.Forall2
import StoragePlan.Keyed
import StoragePlan.Text

/-!
# Reading drawings back

A reader for the part of the DOT language that drawings are written in: directed graphs of nodes and
edges with attributes, each statement ended by a semicolon. It knows no subgraphs, ports, numerals
or comments.

In a text in quotes, only a backslash with a quote behind it is more than itself: it stands for that
quote. So the reader has to know of a text only what it read last, and after an escaped text it has
read that text (`run_escape`). The next quote ends it, unless the text ends in a backslash: then the
text runs on (`yields_quoted`, `garbled_unclosed`).

The reader is run through a text character by character (`Scan.run`). What was read before is left
alone (`run_after`), so that a text is read piece by piece where the pieces end between tokens
(`Yields.append`), and a drawing line by line (`read?_graph`).
-/

namespace StoragePlan.Dot

/-! ### Tokens -/

/-- The smallest parts of a drawing. -/
inductive Token where
  /-- A name without quotes. -/
  | word (text : String)
  /-- A text in quotes, as it is meant. -/
  | quoted (text : String)
  /-- The sign between the ends of an edge. -/
  | arrow
  /-- A sign of one character, such as a bracket. -/
  | mark (c : Char)
  deriving DecidableEq, Repr

/-- What the reader is in the middle of. -/
inductive Mode where
  /-- Nothing. -/
  | between
  /-- A name of which it has read these characters, the last one first. -/
  | word (before : List Char)
  /-- The sign between the ends of an edge, of which it has read the hyphen. -/
  | hyphen
  /-- A text in quotes of which it has read these characters, the last one first. -/
  | quoted (before : List Char)
  deriving DecidableEq, Repr

/-- A reader in the middle of a drawing. -/
structure Scan where
  /-- What it has read. -/
  tokens : List Token := []
  /-- What it is in the middle of. -/
  mode : Mode := .between
  deriving DecidableEq, Repr

/-- Whether a name can begin with the character. -/
def beginsWord (c : Char) : Bool := c.isAlpha || c == '_'

/-- Whether a name can go on with the character. -/
def inWord (c : Char) : Bool := c.isAlphanum || c == '_'

/-- The characters that separate tokens. -/
def blanks : List Char := [' ', '\t', '\n', '\r']

/-- The signs of one character. -/
def marks : List Char := ['\x7b', '\x7d', '[', ']', '=', ',', ';']

namespace Scan

/-- Reads the first character of a token, or what is between tokens. -/
def begin (tokens : List Token) (c : Char) : Option Scan :=
  if beginsWord c then some ⟨tokens, .word [c]⟩
  else if c = '"' then some ⟨tokens, .quoted []⟩
  else if c = '-' then some ⟨tokens, .hyphen⟩
  else if c ∈ blanks then some ⟨tokens, .between⟩
  else if c ∈ marks then some ⟨tokens ++ [.mark c], .between⟩
  else none

/-- Reads a character. A quote with a backslash before it belongs to the text, and the backslash
does not. -/
def step (s : Scan) (c : Char) : Option Scan :=
  match s.mode with
  | .between => begin s.tokens c
  | .word before =>
    if inWord c then some ⟨s.tokens, .word (c :: before)⟩
    else begin (s.tokens ++ [.word (String.ofList before.reverse)]) c
  | .hyphen => if c = '>' then some ⟨s.tokens ++ [.arrow], .between⟩ else none
  | .quoted before =>
    if c = '"' then
      match before with
      | '\\' :: rest => some ⟨s.tokens, .quoted ('"' :: rest)⟩
      | _ => some ⟨s.tokens ++ [.quoted (String.ofList before.reverse)], .between⟩
    else some ⟨s.tokens, .quoted (c :: before)⟩

/-- Reads characters. -/
def run (s : Scan) (text : List Char) : Option Scan := text.foldlM step s

/-- The reader that has read these tokens before. -/
def after (before : List Token) (s : Scan) : Scan := { s with tokens := before ++ s.tokens }

end Scan

/-- The tokens of a text. A drawing ends with a brace, so nothing may be left half read. -/
def tokens? (text : String) : Option (List Token) :=
  match Scan.run {} text.toList with
  | some ⟨tokens, .between⟩ => some tokens
  | _ => none

/-! ### Statements -/

/-- Names with their values, in the order they are written. -/
abbrev Attributes := List (String × String)

/-- A part of a drawing that ends with a semicolon. -/
inductive Statement where
  /-- Attributes for all nodes that come later. -/
  | defaults (attributes : Attributes)
  /-- A node with attributes of its own. -/
  | node (name : String) (attributes : Attributes)
  /-- An edge between two nodes. -/
  | edge (source target : String) (attributes : Attributes)
  deriving DecidableEq, Repr

/-- The words that are no names, whatever their case. -/
def keywords : List String := ["node", "edge", "graph", "digraph", "subgraph", "strict"]

/-- The text in small letters. -/
def inSmallLetters (text : String) : String := String.ofList (text.toList.map Char.toLower)

namespace Token

/-- The name that the token is. -/
def name? : Token → Option String
  | word text => if inSmallLetters text ∈ keywords then none else some text
  | quoted text => some text
  | arrow | mark _ => none

@[simp] theorem name?_quoted (text : String) : (quoted text).name? = some text := rfl

/-- Whether the token is the keyword. -/
def isKeyword (keyword : String) : Token → Bool
  | word text => inSmallLetters text == keyword
  | _ => false

end Token

/-- Reads attributes up to the closing bracket, which has to be the last token. -/
def attributes? : List Token → Option Attributes
  | [.mark ']'] => some []
  | key :: .mark '=' :: value :: .mark ',' :: rest => do
    return (← key.name?, ← value.name?) :: (← attributes? rest)
  | key :: .mark '=' :: value :: rest => do
    return (← key.name?, ← value.name?) :: (← attributes? rest)
  | _ => none

/-- Reads a statement. -/
def statement? : List Token → Option Statement
  | [source, .arrow, target] => do return .edge (← source.name?) (← target.name?) []
  | source :: .arrow :: target :: .mark '[' :: rest => do
    return .edge (← source.name?) (← target.name?) (← attributes? rest)
  | first :: .mark '[' :: rest => do
    let attributes ← attributes? rest
    if first.isKeyword "node" then return .defaults attributes
    return .node (← first.name?) attributes
  | _ => none

/-- Reads statements up to the closing brace, which has to be the last token. `begun` is what was
read of the first one. -/
def statements? (begun : List Token) : List Token → Option (List Statement)
  | [] => none
  | .mark ';' :: rest => do return (← statement? begun) :: (← statements? [] rest)
  | .mark '\x7d' :: rest => if begun.isEmpty && rest.isEmpty then some [] else none
  | token :: rest => statements? (begun ++ [token]) rest

/-! ### Drawings -/

/-- A node that is drawn. -/
structure Node where
  /-- What names the node. -/
  name : String
  /-- Its attributes. -/
  attributes : Keyed String
  deriving DecidableEq, Repr

/-- An edge that is drawn. -/
structure Edge where
  /-- The node that the edge leaves. -/
  source : String
  /-- The node that the edge enters. -/
  target : String
  /-- Its attributes. -/
  attributes : Keyed String
  deriving DecidableEq, Repr

/-- A graph that is drawn. -/
structure Drawing where
  /-- The name of the graph. -/
  name : String
  /-- The attributes that a new node gets. -/
  defaults : Keyed String := []
  /-- The nodes, each once, in the order they are named first. -/
  nodes : List Node := []
  /-- The edges, in the order they are written. -/
  edges : List Edge := []
  deriving DecidableEq, Repr

/-- Sets attributes; of two values for one name the later counts. -/
def set (values : Keyed String) (attributes : Attributes) : Keyed String :=
  attributes.foldl (fun values (name, value) => values.insert name value) values

namespace Drawing

/-- Names a node, which is new if it was not named before, and sets attributes of it. -/
def setNode (d : Drawing) (name : String) (attributes : Attributes) : Drawing :=
  if name ∈ d.nodes.map Node.name then
    { d with nodes := d.nodes.map fun n =>
        if n.name = name then { n with attributes := set n.attributes attributes } else n }
  else { d with nodes := d.nodes ++ [⟨name, set d.defaults attributes⟩] }

/-- Draws what a statement says. The ends of an edge are nodes, also where nothing else is said of
them. -/
def add (d : Drawing) : Statement → Drawing
  | .defaults attributes => { d with defaults := set d.defaults attributes }
  | .node name attributes => d.setNode name attributes
  | .edge source target attributes =>
    let joined := (d.setNode source []).setNode target []
    { joined with edges := joined.edges ++ [⟨source, target, set [] attributes⟩] }

/-- Draws what statements say. -/
def ofStatements (name : String) (statements : List Statement) : Drawing :=
  statements.foldl add { name }

end Drawing

/-- Reads a drawing of a directed graph. -/
def read? (text : String) : Option Drawing := do
  match ← tokens? text with
  | first :: name :: .mark '\x7b' :: rest =>
    if first.isKeyword "digraph" then
      return .ofStatements (← name.name?) (← statements? [] rest)
    else none
  | _ => none

/-! ### Reading piece by piece -/

namespace Scan

variable {s : Scan} {ts us : List Token} {c : Char} {cs xs ys before : List Char}

theorem run_append : s.run (xs ++ ys) = (s.run xs).bind fun s' => s'.run ys := List.foldlM_append

theorem begin_after : begin (ts ++ us) c = (begin us c).map (after ts) := by
  unfold begin
  split
  · rfl
  split
  · rfl
  split
  · rfl
  split
  · rfl
  split
  · rw [List.append_assoc]
    rfl
  · rfl

theorem step_after : (s.after ts).step c = (s.step c).map (after ts) := by
  obtain ⟨us, mode⟩ := s
  cases mode with
  | between => exact begin_after
  | word before =>
    simp only [after, step]
    split
    · rfl
    · rw [List.append_assoc, begin_after]
  | hyphen =>
    simp only [after, step]
    split <;> simp [after]
  | quoted before =>
    simp only [after, step]
    split
    · split <;> simp [after]
    · rfl

/-- What was read before makes no difference. -/
theorem run_after : (s.after ts).run cs = (s.run cs).map (after ts) := by
  induction cs generalizing s with
  | nil => rfl
  | cons c rest ih =>
    rw [run, List.foldlM_cons, step_after, run, List.foldlM_cons]
    cases s.step c with
    | none => rfl
    | some s' => exact ih

/-- A name goes on with the characters of names. -/
theorem run_inWord (h : cs.all inWord = true) :
    run ⟨ts, .word before⟩ cs = some ⟨ts, .word (cs.reverse ++ before)⟩ := by
  induction cs generalizing before with
  | nil => rfl
  | cons c rest ih =>
    obtain ⟨hc, rest_inWord⟩ := Bool.and_eq_true_iff.1 (List.all_cons ▸ h)
    have one : step ⟨ts, .word before⟩ c = some ⟨ts, .word (c :: before)⟩ := if_pos hc
    rw [run, List.foldlM_cons, one]
    change run ⟨ts, .word (c :: before)⟩ rest = _
    rw [ih rest_inWord, List.reverse_cons, List.append_assoc, List.singleton_append]

/-- After an escaped text the reader has read the text. -/
theorem run_escape (text before : List Char) :
    run ⟨ts, .quoted before⟩ (escapeChars text) = some ⟨ts, .quoted (text.reverse ++ before)⟩ := by
  induction text generalizing before with
  | nil => rfl
  | cons c rest ih =>
    rw [List.reverse_cons, List.append_assoc, List.singleton_append, ← ih, escapeChars]
    by_cases quote : c = '"'
    · subst quote
      -- Two steps: the backslash is read as itself, then the quote takes its place.
      rfl
    · have one : step ⟨ts, .quoted before⟩ c = some ⟨ts, .quoted (c :: before)⟩ := if_neg quote
      rw [if_neg quote, run, List.foldlM_cons, one]
      rfl

end Scan

/-- The text is read as these tokens, with none left half read. -/
def Yields (text : List Char) (tokens : List Token) : Prop :=
  Scan.run {} text = some ⟨tokens, .between⟩

/-- The text cannot be read. -/
def Garbled (text : List Char) : Prop := Scan.run {} text = none

section

variable {xs ys : List Char} {ts us : List Token}

theorem Yields.run_append (h : Yields xs ts) :
    Scan.run {} (xs ++ ys) = (Scan.run {} ys).map (Scan.after ts) := by
  rw [Scan.run_append, h, Option.bind_some, ← Scan.run_after, Scan.after, List.append_nil]

theorem Yields.append (h : Yields xs ts) (h' : Yields ys us) : Yields (xs ++ ys) (ts ++ us) := by
  rw [Yields, h.run_append, h']
  rfl

theorem Yields.garbled_append (h : Yields xs ts) (h' : Garbled ys) : Garbled (xs ++ ys) := by
  rw [Garbled, h.run_append, h']
  rfl

theorem Garbled.append (h : Garbled xs) (ys : List Char) : Garbled (xs ++ ys) := by
  rw [Garbled, Scan.run_append, h]
  rfl

end

/-! ### Names and texts -/

/-- The text is a name that needs no quotes. -/
structure Bare (name : String) : Prop where
  spelled : ∃ c cs, name.toList = c :: cs ∧ beginsWord c = true ∧ cs.all inWord = true
  free : inSmallLetters name ∉ keywords

/-- The text can stand before a closing quote: its last character is no backslash. -/
def Closes (text : String) : Prop := text.toList.getLast? ≠ some '\\'

instance (text : String) : Decidable (Closes text) := inferInstanceAs (Decidable (_ ≠ _))

section

variable {name text : String} {c : Char} {us : List Token}

/-- A name ends before a character of another token. -/
theorem Bare.yields (h : Bare name) (ends : inWord c = false)
    (next : Scan.begin [] c = some ⟨us, .between⟩) :
    Yields (name.toList ++ [c]) (.word name :: us) := by
  obtain ⟨first, rest, spelled, begins, goesOn⟩ := h.spelled
  have start : Scan.run {} name.toList = some ⟨[], .word name.toList.reverse⟩ := by
    have one : Scan.step {} first = some ⟨[], .word [first]⟩ := if_pos begins
    rw [spelled, Scan.run, List.foldlM_cons, one, List.reverse_cons, ← Scan.run_inWord goesOn]
    rfl
  have last : Scan.step ⟨[], .word name.toList.reverse⟩ c = some ⟨.word name :: us, .between⟩ := by
    have := @Scan.begin_after [.word name] [] c
    simp only [Scan.step, ends, Bool.false_eq_true, if_false, List.reverse_reverse,
      String.ofList_toList]
    rw [List.nil_append, ← List.append_nil [Token.word name], this, next]
    rfl
  rw [Yields, Scan.run_append, start, Option.bind_some, Scan.run, List.foldlM_cons, last]
  rfl

theorem Bare.name?_word (h : Bare name) : (Token.word name).name? = some name := if_neg h.free

/-- The text in quotes, as a drawing writes it. -/
def quoteChars (text : String) : List Char := '"' :: escapeChars text.toList ++ ['"']

/-- Before the closing quote the reader has read the text. -/
theorem run_quoteChars (text : String) : Scan.run {} ('"' :: escapeChars text.toList) =
    some ⟨[], .quoted text.toList.reverse⟩ := by
  rw [← List.append_nil text.toList.reverse, ← Scan.run_escape]
  rfl

/-- An escaped text in quotes is read as the text if that does not end in a backslash. -/
theorem yields_quoted (h : Closes text) : Yields (quoteChars text) [.quoted text] := by
  have last : Scan.step ⟨[], .quoted text.toList.reverse⟩ '"' =
      some ⟨[.quoted text], .between⟩ := by
    simp only [Scan.step, if_true, List.nil_append]
    split
    · next rest backslash =>
      refine absurd ?_ h
      rw [List.getLast?_eq_head?_reverse, backslash]
      rfl
    · rw [List.reverse_reverse, String.ofList_toList]
  rw [Yields, quoteChars, Scan.run_append, run_quoteChars, Option.bind_some, Scan.run,
    List.foldlM_cons, last]
  rfl

/-- A text that ends in a backslash runs on to the next quote. What stands there in a drawing is a
color, and that does not begin a token. -/
theorem garbled_unclosed (h : ¬Closes text) :
    Garbled (quoteChars text ++ ", color=\"#".toList) := by
  obtain ⟨rest, backslash⟩ : ∃ rest, text.toList.reverse = '\\' :: rest := by
    have last := Classical.not_not.1 h
    rw [List.getLast?_eq_head?_reverse] at last
    exact ⟨_, (List.head?_eq_some_iff.1 last).choose_spec⟩
  rw [Garbled, quoteChars, List.append_assoc, Scan.run_append, run_quoteChars, backslash]
  rfl

end

/-! ### Reading line by line -/

/-- The line is read as the statement, or cannot be read. -/
def Tells (line : String) : Option Statement → Prop
  | none => Garbled line.toList
  | some s => ∃ ts, Yields line.toList (ts ++ [.mark ';']) ∧ .mark ';' ∉ ts ∧ .mark '\x7d' ∉ ts ∧
    statement? ts = some s

theorem statements?_append {begun ts rest : List Token} (one : .mark ';' ∉ ts)
    (inside : .mark '\x7d' ∉ ts) : statements? begun (ts ++ .mark ';' :: rest) =
      (do return (← statement? (begun ++ ts)) :: (← statements? [] rest)) := by
  induction ts generalizing begun with
  | nil => rw [List.nil_append, statements?, List.append_nil]
  | cons t ts ih =>
    rw [List.mem_cons, not_or] at one inside
    have goesOn : statements? begun (t :: (ts ++ .mark ';' :: rest)) =
        statements? (begun ++ [t]) (ts ++ .mark ';' :: rest) := by
      rw [statements?]
      · exact fun h => one.1 h.symm
      · exact fun h => inside.1 h.symm
    rw [List.cons_append, goesOn, ih one.2 inside.2, List.append_assoc, List.singleton_append]

/-- A line as it stands in a drawing. -/
def laidOut (line : String) : String := "    " ++ line ++ "\n"

theorem graph_eq (name : String) (lines : List String) : graph name lines =
    "digraph " ++ name ++ " \x7b\n" ++ String.join (lines.map laidOut) ++ "\x7d\n" := rfl

/-- Lines that can be read are read one by one, up to the first one that cannot. -/
theorem read_lines {lines : List String} {said : List (Option Statement)}
    (h : List.Forall₂ Tells lines said) : match said.mapM id with
      | none => Garbled (String.join (lines.map laidOut)).toList
      | some ss => ∃ ts, Yields (String.join (lines.map laidOut)).toList ts ∧
        ∀ rest, statements? [] (ts ++ rest) = (statements? [] rest).map (ss ++ ·) := by
  have indented : Yields "    ".toList [] := by rfl
  have broken : Yields "\n".toList [] := by rfl
  -- The first line that cannot be read garbles all that follows, whatever the lines behind it mean.
  induction h with
  | nil => exact ⟨[], by rfl, fun rest => Option.map_id'.symm⟩
  | @cons line s lines said tells _ ih =>
    rw [List.mapM_cons, List.map_cons, String.join_cons, String.toList_append, laidOut,
      String.toList_append, String.toList_append]
    cases s with
    | none =>
      have here : Garbled ("    ".toList ++ line.toList) := indented.garbled_append tells
      exact (here.append _).append _
    | some s =>
      obtain ⟨ts, yields, one, inside, reads⟩ := tells
      have here := (indented.append yields).append broken
      cases later : said.mapM id with
      | none =>
        rw [later] at ih
        exact here.garbled_append ih
      | some ss =>
        rw [later] at ih
        obtain ⟨us, yields_rest, reads_rest⟩ := ih
        refine ⟨_, here.append yields_rest, fun rest => ?_⟩
        rw [List.nil_append, List.append_nil, List.append_assoc, List.append_assoc,
          List.singleton_append, statements?_append one inside, List.nil_append, reads, reads_rest]
        cases statements? [] rest <;> rfl

/-- A drawing can be read if each of its lines can, and means what they mean. -/
theorem read?_graph {name : String} (bare : Bare name) {lines : List String}
    {said : List (Option Statement)} (h : List.Forall₂ Tells lines said) :
    read? (graph name lines) = (said.mapM id).map (Drawing.ofStatements name) := by
  have head : Yields ("digraph ".toList ++ name.toList ++ " \x7b\n".toList)
      [.word "digraph", .word name, .mark '\x7b'] := by
    have first : Yields "digraph ".toList [.word "digraph"] := by rfl
    have named : Yields (name.toList ++ [' ']) [.word name] := bare.yields rfl rfl
    have opened : Yields "\x7b\n".toList [.mark '\x7b'] := by rfl
    simpa using (first.append named).append opened
  have last : Yields "\x7d\n".toList [.mark '\x7d'] := by rfl
  have read := read_lines h
  rw [read?, graph_eq, tokens?, String.toList_append, String.toList_append, String.toList_append,
    String.toList_append]
  cases all : said.mapM id with
  | none =>
    rw [all] at read
    have garbled := head.garbled_append (Garbled.append read "\x7d\n".toList)
    rw [← List.append_assoc] at garbled
    rw [garbled]
    rfl
  | some ss =>
    rw [all] at read
    obtain ⟨ts, yields, reads⟩ := read
    have tokens := head.append (yields.append last)
    rw [← List.append_assoc] at tokens
    have ended : statements? [] [.mark '\x7d'] = some [] := rfl
    have keyword : (Token.word "digraph").isKeyword "digraph" = true := by decide
    rw [tokens]
    simp [keyword, bare.name?_word, reads, ended]

end StoragePlan.Dot

import Mathlib.Data.List.Infix
import Mathlib.Data.List.Nodup
import StoragePlan.Proofs.DotReading

/-!
# What drawings show

Devicegraphs and plans are drawn alike: a line for the attributes of all nodes, then a line for each
node, with a label in quotes, and then one for each edge. A `Sketch` is what such a drawing is made
of. Only labels are arbitrary; all else is plain (`Sketch.Plain`).

A plain sketch can be read back unless a label ends in a backslash (`Sketch.Plain.read?_text`), and
then all of it is there: a node for each box, and an edge for each link (`Sketch.shows`).
-/

namespace StoragePlan

namespace Dot

/-! ### Sketches -/

/-- A node of a sketch. -/
structure Box where
  /-- What names the node. -/
  name : String
  /-- The text in the node. -/
  label : String
  /-- The color of its border. -/
  color : String

/-- An edge of a sketch. -/
structure Link where
  /-- The node that the edge leaves. -/
  source : String
  /-- The node that the edge enters. -/
  target : String
  /-- How the edge is drawn, if it is told. -/
  style : Option String := none

/-- What devicegraphs and plans draw. -/
structure Sketch where
  /-- The name of the graph. -/
  name : String
  /-- The nodes. -/
  boxes : List Box
  /-- The edges. -/
  links : List Link

/-- The attributes of all nodes. -/
def common : Attributes := [("shape", "rectangle"), ("style", "filled"), ("fontname", "Arial")]

/-- The line for the attributes of all nodes. -/
def commonLine : String := "node [shape=rectangle, style=filled, fontname=\"Arial\"];"

/-- The text is a color, which is written with a number sign. -/
structure IsColor (color : String) : Prop where
  hash : ∃ digits, color.toList = '#' :: digits
  unescaped : escape color = color
  closes : Closes color

namespace Box

/-- The line for a node. -/
def line (b : Box) : String :=
  b.name ++ " [label=\"" ++ escape b.label ++ "\", color=\"" ++ b.color ++
    "\", fillcolor=\"#ffffff\"];"

/-- The attributes in the line. -/
def attributes (b : Box) : Attributes :=
  [("label", b.label), ("color", b.color), ("fillcolor", "#ffffff")]

/-- The node that is meant. -/
def node (b : Box) : Node where
  name := b.name
  attributes := [("color", b.color), ("fillcolor", "#ffffff"), ("fontname", "Arial"),
    ("label", b.label), ("shape", "rectangle"), ("style", "filled")]

/-- The name needs no quotes, and the color is one. -/
structure Plain (b : Box) : Prop where
  bare : Bare b.name
  color : IsColor b.color

end Box

namespace Link

/-- The line for an edge. -/
def line (l : Link) : String :=
  l.source ++ " -> " ++ l.target ++
    match l.style with
    | none => ";"
    | some style => " [style=" ++ style ++ "];"

/-- The attributes in the line. -/
def attributes (l : Link) : Attributes :=
  match l.style with
  | none => []
  | some style => [("style", style)]

/-- The edge that is meant. -/
def edge (l : Link) : Edge := ⟨l.source, l.target, l.attributes⟩

theorem edge_eq (l : Link) : ⟨l.source, l.target, set [] l.attributes⟩ = l.edge := by
  unfold edge attributes
  split <;> rfl

/-- Nothing needs quotes. -/
structure Plain (l : Link) : Prop where
  source : Bare l.source
  target : Bare l.target
  style : ∀ style ∈ l.style, Bare style

end Link

namespace Sketch

/-- The text of a sketch. -/
def text (s : Sketch) : String :=
  graph s.name (commonLine :: s.boxes.map Box.line ++ s.links.map Link.line)

/-- What the lines of the sketch mean. -/
def statements (s : Sketch) : List Statement :=
  .defaults common :: s.boxes.map (fun b => .node b.name b.attributes) ++
    s.links.map fun l => .edge l.source l.target l.attributes

/-- Only labels need quotes. -/
structure Plain (s : Sketch) : Prop where
  name : Bare s.name
  boxes : ∀ b ∈ s.boxes, b.Plain
  links : ∀ l ∈ s.links, l.Plain

end Sketch

/-! ### Reading a sketch -/

theorem toList_escape (text : String) : (escape text).toList = escapeChars text.toList :=
  String.toList_ofList

theorem tells_commonLine : Tells commonLine (some (.defaults common)) := by
  refine ⟨[.word "node", .mark '[', .word "shape", .mark '=', .word "rectangle", .mark ',',
    .word "style", .mark '=', .word "filled", .mark ',', .word "fontname", .mark '=',
    .quoted "Arial", .mark ']'], ?_, by decide, by decide, by decide⟩
  rfl

/-- A node is read with its label if the label can stand before the closing quote, and not at all
otherwise. -/
theorem Box.Plain.tells {b : Box} (plain : b.Plain) :
    Tells b.line (if Closes b.label then some (.node b.name b.attributes) else none) := by
  have color : escapeChars b.color.toList = b.color.toList := by
    rw [← toList_escape, plain.color.unescaped]
  -- Cut so that each piece ends between tokens, up to the quotes of the label.
  have laid : b.line.toList = (b.name.toList ++ [' ']) ++ "[label=".toList ++
      (quoteChars b.label ++ ", color=".toList ++ quoteChars b.color ++
        ", fillcolor=\"#ffffff\"];".toList) := by
    have opened : " [label=\"".toList = [' '] ++ "[label=".toList ++ ['"'] := by rfl
    have colored : "\", color=\"".toList = ['"'] ++ ", color=".toList ++ ['"'] := by rfl
    have ended : "\", fillcolor=\"#ffffff\"];".toList =
        ['"'] ++ ", fillcolor=\"#ffffff\"];".toList := by rfl
    simp only [line, String.toList_append, toList_escape, quoteChars, color, opened, colored, ended]
    simp only [List.cons_append, List.append_assoc, List.nil_append]
  have named : Yields (b.name.toList ++ [' ']) [.word b.name] := plain.bare.yields rfl rfl
  have opened : Yields "[label=".toList [.mark '[', .word "label", .mark '='] := by rfl
  have head := named.append opened
  split
  · next closes =>
    have colored : Yields ", color=".toList [.mark ',', .word "color", .mark '='] := by rfl
    have ended : Yields ", fillcolor=\"#ffffff\"];".toList [.mark ',', .word "fillcolor",
        .mark '=', .quoted "#ffffff", .mark ']', .mark ';'] := by rfl
    have all := head.append ((((yields_quoted closes).append colored).append
      (yields_quoted plain.color.closes)).append ended)
    rw [← laid] at all
    refine ⟨[.word b.name, .mark '[', .word "label", .mark '=', .quoted b.label, .mark ',',
      .word "color", .mark '=', .quoted b.color, .mark ',', .word "fillcolor", .mark '=',
      .quoted "#ffffff", .mark ']'], all, by simp, by simp, ?_⟩
    have node : (Token.word b.name).isKeyword "node" = false := by
      have free := plain.bare.free
      simp only [Token.isKeyword, beq_eq_false_iff_ne]
      rintro same
      exact free (same ▸ by decide)
    have keys : ∀ key ∈ ["label", "color", "fillcolor"], (Token.word key).name? = some key := by
      decide
    simp only [List.forall_mem_cons] at keys
    simp [statement?, attributes?, attributes, node, keys, plain.bare.name?_word]
  · next runsOn =>
    -- The label runs on to the quote that should open the color, and the number sign is left bare.
    obtain ⟨digits, hash⟩ := plain.color.hash
    have begun : ", color=\"#".toList = ", color=".toList ++ ['"', '#'] := by rfl
    have garbled := (garbled_unclosed runsOn).append
      (digits ++ ['"'] ++ ", fillcolor=\"#ffffff\"];".toList)
    rw [Tells, laid]
    refine head.garbled_append ?_
    rw [hash] at color
    simp only [quoteChars, hash, color, begun, List.append_assoc, List.cons_append,
      List.nil_append] at garbled ⊢
    exact garbled

theorem Link.Plain.tells {l : Link} (plain : l.Plain) :
    Tells l.line (some (.edge l.source l.target l.attributes)) := by
  have source : Yields (l.source.toList ++ [' ']) [.word l.source] := plain.source.yields rfl rfl
  have arrow : Yields "-> ".toList [.arrow] := by rfl
  have ends := source.append arrow
  have spaced : " -> ".toList = [' '] ++ "-> ".toList := by rfl
  cases hs : l.style with
  | none =>
    have laid : l.line.toList =
        (l.source.toList ++ [' ']) ++ "-> ".toList ++ (l.target.toList ++ [';']) := by
      have last : ";".toList = [';'] := by rfl
      simp only [line, hs, String.toList_append, spaced, last]
      simp only [List.append_assoc]
    have target : Yields (l.target.toList ++ [';']) [.word l.target, .mark ';'] :=
      plain.target.yields rfl rfl
    have all := ends.append target
    rw [← laid] at all
    refine ⟨[.word l.source, .arrow, .word l.target], all, by simp, by simp, ?_⟩
    simp [statement?, attributes, hs, plain.source.name?_word, plain.target.name?_word]
  | some style =>
    have styled := plain.style style hs
    have laid : l.line.toList = (l.source.toList ++ [' ']) ++ "-> ".toList ++
        (l.target.toList ++ [' ']) ++ "[style=".toList ++ (style.toList ++ [']']) ++ [';'] := by
      have first : " [style=".toList = [' '] ++ "[style=".toList := by rfl
      have last : "];".toList = [']'] ++ [';'] := by rfl
      simp only [line, hs, String.toList_append, spaced, first, last]
      simp only [List.append_assoc]
    have target : Yields (l.target.toList ++ [' ']) [.word l.target] := plain.target.yields rfl rfl
    have opened : Yields "[style=".toList [.mark '[', .word "style", .mark '='] := by rfl
    have closed : Yields (style.toList ++ [']']) [.word style, .mark ']'] := styled.yields rfl rfl
    have ended : Yields [';'] [.mark ';'] := by rfl
    have all := (((ends.append target).append opened).append closed).append ended
    rw [← laid] at all
    refine ⟨[.word l.source, .arrow, .word l.target, .mark '[', .word "style", .mark '=',
      .word style, .mark ']'], all, by simp, by simp, ?_⟩
    have key : (Token.word "style").name? = some "style" := by decide
    simp [statement?, attributes?, attributes, hs, key, plain.source.name?_word,
      plain.target.name?_word, styled.name?_word]

/-- Statements that are all there are told one after the other. -/
theorem mapM_ite {α β : Type} {p : α → Prop} [DecidablePred p] {f : α → β} {l : List α} :
    (l.map fun a => if p a then some (f a) else none).mapM id =
      if ∀ a ∈ l, p a then some (l.map f) else none := by
  induction l with
  | nil => simp
  | cons a rest ih =>
    rw [List.map_cons, List.mapM_cons, ih]
    by_cases here : p a
    · by_cases later : ∀ b ∈ rest, p b
      · rw [if_pos here, if_pos later, if_pos (List.forall_mem_cons.2 ⟨here, later⟩)]
        rfl
      · rw [if_pos here, if_neg later, if_neg fun all => later (List.forall_mem_cons.1 all).2]
        rfl
    · rw [if_neg here, if_neg fun all => here (List.forall_mem_cons.1 all).1]
      rfl

/-- A sketch can be read if all its labels can stand before a closing quote, and not otherwise. -/
theorem Sketch.Plain.read?_text {s : Sketch} (plain : s.Plain) :
    read? s.text = if ∀ b ∈ s.boxes, Closes b.label then
      some (.ofStatements s.name s.statements) else none := by
  have boxes : List.Forall₂ Tells (s.boxes.map Box.line)
      (s.boxes.map fun b => if Closes b.label then some (.node b.name b.attributes) else none) :=
    List.forall₂_map_left_iff.2 <| List.forall₂_map_right_iff.2 <|
      List.forall₂_same.2 fun b hb => (plain.boxes b hb).tells
  have links : List.Forall₂ Tells (s.links.map Link.line)
      (s.links.map fun l => some (.edge l.source l.target l.attributes)) :=
    List.forall₂_map_left_iff.2 <| List.forall₂_map_right_iff.2 <|
      List.forall₂_same.2 fun l hl => (plain.links l hl).tells
  have all := List.Forall₂.cons tells_commonLine (List.rel_append boxes links)
  have edges : (s.links.map fun l => some (.edge l.source l.target l.attributes)).mapM id =
      some (s.links.map fun l => Statement.edge l.source l.target l.attributes) := by
    rw [List.mapM_map]
    exact List.mapM_pure
  rw [text, List.cons_append, read?_graph plain.name all, List.mapM_cons, List.mapM_append,
    mapM_ite, edges, statements]
  split <;> rfl

/-! ### What a sketch shows -/

namespace Drawing

variable {d : Drawing} {name : String}

/-- Naming a node that is there changes nothing. -/
theorem setNode_nil (h : name ∈ d.nodes.map Node.name) : d.setNode name [] = d := by
  rw [setNode, if_pos h]
  have same : (d.nodes.map fun n => if n.name = name then
      { n with attributes := set n.attributes [] } else n) = d.nodes := by
    refine (List.map_congr_left fun n _ => ?_).trans (List.map_id _)
    split <;> rfl
  rw [same]

theorem edges_setNode (d : Drawing) (name : String) (attributes : Attributes) :
    (d.setNode name attributes).edges = d.edges := by
  unfold setNode
  split <;> rfl

theorem nodes_setNode_nil (d : Drawing) (name : String) :
    d.nodes <+: (d.setNode name []).nodes := by
  by_cases h : name ∈ d.nodes.map Node.name
  · rw [setNode_nil h]
  · rw [setNode, if_neg h]
    exact List.prefix_append _ _

theorem mem_setNode_nil (d : Drawing) (name : String) :
    name ∈ (d.setNode name []).nodes.map Node.name := by
  by_cases h : name ∈ d.nodes.map Node.name
  · rwa [setNode_nil h]
  · rw [setNode, if_neg h]
    simp

/-- Boxes with names of their own become nodes. -/
theorem foldl_boxes {boxes : List Box} (defaults : d.defaults = set [] common)
    (distinct : (d.nodes.map Node.name ++ boxes.map Box.name).Nodup) :
    (boxes.map fun b => .node b.name b.attributes).foldl add d =
      { d with nodes := d.nodes ++ boxes.map Box.node } := by
  induction boxes generalizing d with
  | nil => simp
  | cons b rest ih =>
    have new : b.name ∉ d.nodes.map Node.name := fun old =>
      (List.nodup_append.1 distinct).2.2 _ old _ List.mem_cons_self rfl
    have node : (⟨b.name, set d.defaults b.attributes⟩ : Node) = b.node := by
      rw [defaults]
      rfl
    rw [List.map_cons, List.foldl_cons, add, setNode, if_neg new, node,
      ih (d := { d with nodes := d.nodes ++ [b.node] }) defaults
        (by simpa [Box.node] using distinct)]
    simp

/-- Links become edges between nodes, and all nodes stay. -/
theorem foldl_links (d : Drawing) (links : List Link) :
    let drawn := (links.map fun l => .edge l.source l.target l.attributes).foldl add d
    drawn.edges = d.edges ++ links.map Link.edge ∧ d.nodes <+: drawn.nodes ∧
      ∀ l ∈ links, l.source ∈ drawn.nodes.map Node.name ∧ l.target ∈ drawn.nodes.map Node.name := by
  induction links generalizing d with
  | nil => simp
  | cons l rest ih =>
    obtain ⟨edges, nodes, ends⟩ := ih (d.add (.edge l.source l.target l.attributes))
    have target := nodes_setNode_nil (d.setNode l.source []) l.target
    refine ⟨?_, ((nodes_setNode_nil d _).trans target).trans nodes, ?_⟩
    · rw [List.map_cons, List.foldl_cons, edges]
      simp [add, edges_setNode, l.edge_eq]
    · refine List.forall_mem_cons.2 ⟨⟨?_, ?_⟩, ends⟩
      · exact ((target.trans nodes).map Node.name).subset (mem_setNode_nil _ _)
      · exact (nodes.map Node.name).subset (mem_setNode_nil _ _)

/-- Links between nodes add no node. -/
theorem foldl_links_of_mem {links : List Link}
    (joined : ∀ l ∈ links, l.source ∈ d.nodes.map Node.name ∧ l.target ∈ d.nodes.map Node.name) :
    (links.map fun l => .edge l.source l.target l.attributes).foldl add d =
      { d with edges := d.edges ++ links.map Link.edge } := by
  induction links generalizing d with
  | nil => simp
  | cons l rest ih =>
    obtain ⟨⟨source, target⟩, later⟩ := List.forall_mem_cons.1 joined
    rw [List.map_cons, List.foldl_cons, add, setNode_nil source, setNode_nil target,
      l.edge_eq, ih (d := { d with edges := d.edges ++ [l.edge] }) later]
    simp

end Drawing

namespace Sketch

variable {s : Sketch}

/-- What a sketch means. -/
def drawing (s : Sketch) : Drawing := .ofStatements s.name s.statements

theorem drawing_eq (distinct : (s.boxes.map Box.name).Nodup) : s.drawing =
    (s.links.map fun l => .edge l.source l.target l.attributes).foldl Drawing.add
      { name := s.name, defaults := set [] common, nodes := s.boxes.map Box.node } := by
  rw [drawing, Drawing.ofStatements, statements, List.cons_append, List.foldl_cons,
    List.foldl_append, Drawing.foldl_boxes]
  · rfl
  · rfl
  · exact distinct

/-- Nodes with names of their own are all there, with the edges. -/
theorem shows (distinct : (s.boxes.map Box.name).Nodup) :
    s.drawing.edges = s.links.map Link.edge ∧ s.boxes.map Box.node <+: s.drawing.nodes := by
  rw [drawing_eq distinct]
  obtain ⟨edges, nodes, -⟩ := Drawing.foldl_links _ _
  exact ⟨edges, nodes⟩

/-- The edges join nodes of the sketch. -/
def Joined (s : Sketch) : Prop :=
  ∀ l ∈ s.links, l.source ∈ s.boxes.map Box.name ∧ l.target ∈ s.boxes.map Box.name

/-- There are other nodes if the edges lead to such, and not otherwise. -/
theorem nodes_drawing_iff (distinct : (s.boxes.map Box.name).Nodup) :
    s.drawing.nodes = s.boxes.map Box.node ↔ s.Joined := by
  have names : (s.boxes.map Box.node).map Node.name = s.boxes.map Box.name := List.map_map
  rw [drawing_eq distinct]
  constructor
  · intro same
    obtain ⟨-, -, ends⟩ := Drawing.foldl_links
      { name := s.name, defaults := set [] common, nodes := s.boxes.map Box.node } s.links
    rwa [same, names] at ends
  · intro joined
    rw [Drawing.foldl_links_of_mem]
    exact names ▸ joined

/-- A plain sketch whose nodes have names of their own: when its text can be read, and what is read
then. -/
theorem Plain.exact (plain : s.Plain) (distinct : (s.boxes.map Box.name).Nodup) :
    ((∃ drawing, read? s.text = some drawing) ↔ ∀ b ∈ s.boxes, Closes b.label) ∧
      ∀ drawing, read? s.text = some drawing → drawing.edges = s.links.map Link.edge ∧
        s.boxes.map Box.node <+: drawing.nodes ∧
        (drawing.nodes = s.boxes.map Box.node ↔ s.Joined) := by
  rw [plain.read?_text]
  refine ⟨?_, fun drawing read => ?_⟩
  · split <;> simp_all
  · split at read
    · obtain rfl := Option.some.inj read
      obtain ⟨edges, nodes⟩ := shows distinct
      exact ⟨edges, nodes, nodes_drawing_iff distinct⟩
    · cases read

end Sketch

/-! ### Numbered names -/

/-- No keyword has a digit. -/
theorem isDigit_of_mem_keywords {keyword : String} (h : keyword ∈ keywords) {c : Char}
    (hc : c ∈ keyword.toList) : c.isDigit = false := by
  have none : keywords.all fun keyword => keyword.toList.all fun c => !c.isDigit := by decide
  simpa using List.all_eq_true.1 (List.all_eq_true.1 none keyword h) c hc

theorem toLower_of_isDigit {c : Char} (h : c.isDigit = true) : c.toLower = c := by
  have digit : c.val ≤ '9'.val := by
    simp only [Char.isDigit, Bool.and_eq_true, decide_eq_true_eq] at h
    exact h.2
  exact dif_neg fun upper => absurd (UInt32.le_trans upper.1 digit) (by decide)

/-- A letter with a number needs no quotes. -/
theorem bare_numbered {letter : String} {c : Char} (h : letter.toList = [c])
    (alpha : c.isAlpha = true) (n : Nat) : Bare (letter ++ toString n) := by
  have digits : ∀ d ∈ Nat.toDigits 10 n, d.isDigit = true := fun d =>
    Nat.isDigit_of_mem_toDigits (by decide) (by decide)
  have spelled : (letter ++ toString n).toList = c :: Nat.toDigits 10 n := by
    rw [String.toList_append, h, Nat.toString_eq_ofList_toDigits, String.toList_ofList]
    rfl
  refine ⟨⟨c, _, spelled, ?_, List.all_eq_true.2 fun d hd => ?_⟩, fun keyword => ?_⟩
  · simp [beginsWord, alpha]
  · simp [inWord, Char.isAlphanum, digits d hd]
  · obtain ⟨d, hd⟩ := List.exists_mem_of_ne_nil _ (@Nat.toDigits_ne_nil n 10)
    have lower : d ∈ (inSmallLetters (letter ++ toString n)).toList := by
      rw [inSmallLetters, String.toList_ofList, spelled]
      exact List.mem_map.2 ⟨d, List.mem_cons_of_mem _ hd, toLower_of_isDigit (digits d hd)⟩
    have other := isDigit_of_mem_keywords keyword lower
    rw [digits d hd] at other
    cases other

theorem numbered_injective {letter : String} {m n : Nat}
    (h : letter ++ toString m = letter ++ toString n) : m = n := by
  have same := congrArg String.toList h
  rw [String.toList_append, String.toList_append, List.append_cancel_left_eq,
    Nat.toString_eq_ofList_toDigits, Nat.toString_eq_ofList_toDigits, String.toList_ofList,
    String.toList_ofList] at same
  rw [← Nat.ofDigitChars_toDigits (b := 10) (n := m) (by decide) (by decide), same,
    Nat.ofDigitChars_toDigits (by decide) (by decide)]

/-! ### Labels -/

theorem escapeChars_append (xs ys : List Char) :
    escapeChars (xs ++ ys) = escapeChars xs ++ escapeChars ys := by
  induction xs with
  | nil => rfl
  | cons c rest ih =>
    rw [List.cons_append, escapeChars, escapeChars, ih]
    split <;> rfl

theorem escape_append (a b : String) : escape (a ++ b) = escape a ++ escape b := by
  rw [escape, String.toList_append, escapeChars_append, String.ofList_append]
  rfl

/-- Behind a text that can stand before a closing quote the other text decides. -/
theorem closes_append {a b : String} (h : Closes a) : Closes (a ++ b) ↔ Closes b := by
  unfold Closes at h ⊢
  rw [String.toList_append, List.getLast?_append]
  cases b.toList.getLast? with
  | none => simpa using h
  | some c => rfl

theorem Closes.append {a b : String} (ha : Closes a) (hb : Closes b) : Closes (a ++ b) :=
  (closes_append ha).2 hb

/-- A text decides if it is not empty, whatever is before it. -/
theorem Closes.append_of_ne {b : String} (hb : Closes b) (ne : b.toList ≠ []) (a : String) :
    Closes (a ++ b) := by
  rw [Closes, String.toList_append, List.getLast?_append_of_ne_nil _ ne]
  exact hb

/-- Behind a fixed text it does not matter what is before that. -/
theorem Closes.behind {b fixed : String} (hb : Closes b) (h : Closes fixed ∧ fixed.toList ≠ [])
    (a : String) : Closes (a ++ fixed ++ b) :=
  (h.1.append_of_ne h.2 a).append hb

theorem closes_of_notMem {text : String} (h : '\\' ∉ text.toList) : Closes text :=
  fun last => h (List.mem_of_getLast? last)

theorem closes_toString (n : Nat) : Closes (toString n) := by
  refine closes_of_notMem fun met => ?_
  rw [Nat.toString_eq_ofList_toDigits, String.toList_ofList] at met
  have digit := Nat.isDigit_of_mem_toDigits (by decide) (by decide) met
  cases digit

end Dot

end StoragePlan

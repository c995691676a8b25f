import StoragePlan.Yaml.Tree

/-!
# Documents with aliases

A node can have a name, and an alias stands for the node with its name. A `Node` is a node as it is
written, with the aliases in place; `Written.tree?` puts in what they stand for.

An alias may be inside the node that it stands for, and a few aliases can stand for a great many
nodes. So both the nesting of collections and the number of aliases to be replaced are bounded.
-/

namespace StoragePlan.Yaml

/-- A node as it is written. -/
inductive Node where
  /-- A piece of text. -/
  | scalar (tag : Option String) (quoted : Bool) (text : String)
  /-- A sequence of nodes. -/
  | seq (tag : Option String) (items : List Node)
  /-- Pairs of a key and a value, in order. -/
  | map (tag : Option String) (entries : List (Node × Node))
  /-- The node whose name has the number. -/
  | alias (name : Nat)
  deriving Inhabited

namespace Node

/-- An empty plain scalar, where nothing is written. -/
def void : Node := .scalar none false ""

mutual

/-- How many scalars, aliases and brackets it takes to write the node. -/
def size : Node → Nat
  | .scalar _ _ _ | .alias _ => 1
  | .seq _ items => sizeItems items + 2
  | .map _ entries => sizeEntries entries + 2

/-- The size of all items of a sequence. -/
def sizeItems : List Node → Nat
  | [] => 0
  | n :: rest => n.size + sizeItems rest

/-- The size of all keys and values of a mapping. -/
def sizeEntries : List (Node × Node) → Nat
  | [] => 0
  | (k, v) :: rest => k.size + v.size + sizeEntries rest

end

end Node

/-- A document as it is written. -/
structure Written where
  /-- The root. -/
  root : Node
  /-- The named nodes with the numbers of their names; of two for one number the first counts. -/
  named : List (Nat × Node) := []

namespace Written

/-- The deepest nesting of collections that a document may have. -/
def maxDepth : Nat := 128

/-- How many aliases may be replaced, which grows with the size of the document. -/
def maxAliases (w : Written) : Nat := 100 * w.root.size

/-- What a node stands for, if it is an alias; counts down the aliases that may be replaced. -/
def follow (w : Written) : Node → StateT Nat Option Node
  | .alias name => do
    let left ← get
    if left = 0 then failure
    set (left - 1)
    w.named.lookup name
  | n => return n

/-- The tree of a node; at most `depth` collections may be nested in each other. -/
def expand (w : Written) : Nat → Node → StateT Nat Option Tree
  | 0, n => do
    match ← w.follow n with
    | .scalar tag quoted text => return .scalar tag quoted text
    | _ => failure
  | depth + 1, n => do
    match ← w.follow n with
    | .scalar tag quoted text => return .scalar tag quoted text
    | .seq tag items => return .seq tag (← items.mapM (w.expand depth))
    | .map tag entries =>
      let pairs ← entries.mapM fun (k, v) => do return (← w.expand depth k, ← w.expand depth v)
      return .map tag pairs
    | .alias _ => failure

/-- The tree of the document, unless its bounds are passed. -/
def tree? (w : Written) : Option Tree := (w.expand maxDepth w.root).run' w.maxAliases

end Written

end StoragePlan.Yaml

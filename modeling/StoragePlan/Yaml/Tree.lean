/-!
# YAML documents as trees

A document is a tree of scalars, sequences and mappings, with aliases replaced by what they stand
for. A scalar keeps its text and whether it was quoted: a quoted scalar is a string, the meaning of
a plain one depends on its text. Any node can carry a tag.
-/

namespace StoragePlan.Yaml

/-- A node of a document. -/
inductive Tree where
  /-- A piece of text; `quoted` if it is a string whatever it looks like. -/
  | scalar (tag : Option String) (quoted : Bool) (text : String)
  /-- A sequence of nodes. -/
  | seq (tag : Option String) (items : List Tree)
  /-- Pairs of a key and a value, in order; keys may repeat. -/
  | map (tag : Option String) (entries : List (Tree × Tree))
  deriving Inhabited

namespace Tree

/-- A plain scalar. -/
def plain (text : String) : Tree := .scalar none false text

/-- The tag of the node. -/
def tag? : Tree → Option String
  | scalar tag _ _ | seq tag _ | map tag _ => tag

/-- Whether the node is an empty plain scalar, as where nothing is written. -/
def isVoid : Tree → Bool
  | scalar _ quoted text => !quoted && text.isEmpty
  | _ => false

end Tree

end StoragePlan.Yaml

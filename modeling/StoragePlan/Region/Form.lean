import StoragePlan.Yaml.Field
import StoragePlan.Yaml.Writer

/-!
# Regions in documents

A region is written as a mapping of its three numbers. It is also read without its keys or with
numbers for them, and without the sector size if that is the usual one.
-/

namespace StoragePlan.Region

open Yaml

/-- The tree of a region. -/
def toTree (r : Region) : Tree :=
  .record [("start", .number r.start), ("length", .number r.length),
    ("sector-size", .number r.sectorSize)]

/-- The names of the numbers. -/
def fieldNames : List String := ["start", "length", "sector-size"]

/-- The name that a key stands for, which may be a place among the names. -/
def fieldName? : Value → Option String
  | .text name => some name
  | .natural place => fieldNames[place]?
  | _ => none

/-- Reads a region. -/
def ofValue? : Value → Option Region
  | .list [start, length] => do return ⟨← start.word?, ← length.word?, defaultSectorSize⟩
  | .list [start, length, size] => do return ⟨← start.word?, ← length.word?, ← size.word?⟩
  | .map entries => do
    let named ← entries.mapM fun (k, v) => do return (← fieldName? k, v)
    let fields ← fields? fieldNames true named
    return ⟨← required? "start" Value.word? fields, ← required? "length" Value.word? fields,
      ← optional? "sector-size" Value.word? defaultSectorSize fields⟩
  | _ => none

end StoragePlan.Region

/-!
# Values by key

Lists of values with texts as keys, by ascending key and each key once.
-/

namespace StoragePlan

/-- Values by ascending key. -/
abbrev Keyed (α : Type) := List (String × α)

namespace Keyed

variable {α : Type}

/-- Sets the value of a key. -/
def insert (key : String) (value : α) : Keyed α → Keyed α
  | [] => [(key, value)]
  | (k, v) :: rest =>
    if key < k then (key, value) :: (k, v) :: rest
    else if key = k then (key, value) :: rest
    else (k, v) :: insert key value rest

/-- Drops a key. -/
def erase (key : String) (values : Keyed α) : Keyed α := values.filter fun (k, _) => k != key

/-- The value of a key. -/
def get? (key : String) (values : Keyed α) : Option α := values.lookup key

/-- The pairs by ascending key; of two pairs with one key the later counts. -/
def ofPairs (pairs : List (String × α)) : Keyed α :=
  pairs.foldl (fun values (k, v) => insert k v values) []

end Keyed

end StoragePlan

/-!
# How many parents or children a device may have
-/

namespace StoragePlan

/-- A count with an optional least and an optional largest value, both included. -/
structure Cardinality where
  /-- The least count allowed. -/
  min? : Option Nat
  /-- The largest count allowed. -/
  max? : Option Nat
  deriving DecidableEq, Repr

namespace Cardinality

/-- Exactly `n`. -/
def exactly (n : Nat) : Cardinality := ⟨some n, some n⟩

/-- None at all. -/
def zero : Cardinality := exactly 0

/-- No more than `n`. -/
def atMost (n : Nat) : Cardinality := ⟨none, some n⟩

/-- Any number. -/
def any : Cardinality := ⟨none, none⟩

/-- Whether the count `n` is allowed. -/
def contains (c : Cardinality) (n : Nat) : Bool :=
  c.min?.all (· ≤ n) && c.max?.all (n ≤ ·)

/-- The counts as messages describe them. -/
def text : Cardinality → String
  | ⟨some a, some b⟩ => if a = b then s!"exactly {a}" else s!"between {a} and {b}"
  | ⟨some a, none⟩ => s!"at least {a}"
  | ⟨none, some b⟩ => s!"at most {b}"
  | ⟨none, none⟩ => "any or none"

end Cardinality

end StoragePlan

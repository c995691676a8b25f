import StoragePlan.Failure

/-!
# Ascending lists of sids

Wherever several devices are reported, their sids are listed in ascending order, each once.
-/

namespace StoragePlan.SidList

/-- Adds a sid to an ascending list, unless it is there. -/
def insert (sid : Sid) : List Sid → List Sid
  | [] => [sid]
  | s :: rest =>
    if sid < s then sid :: s :: rest
    else if sid = s then s :: rest
    else s :: insert sid rest

/-- The sids of a list, ascending and each once. -/
def ofList (sids : List Sid) : List Sid := sids.foldr insert []

/-- The sids of two lists, ascending and each once. -/
def union (a b : List Sid) : List Sid := ofList (a ++ b)

/-- Inserting a sid adds it and nothing else. -/
theorem mem_insert {a b : Sid} {l : List Sid} : a ∈ insert b l ↔ a = b ∨ a ∈ l := by
  induction l with
  | nil => simp [insert]
  | cons s rest ih =>
    unfold insert
    split
    · simp
    · split
      · next h => simp [h]
      · simp only [List.mem_cons, ih]
        grind

@[simp] theorem mem_ofList {a : Sid} {l : List Sid} : a ∈ ofList l ↔ a ∈ l := by
  induction l with
  | nil => simp [ofList]
  | cons s rest ih =>
    change a ∈ insert s (ofList rest) ↔ _
    rw [mem_insert, ih, List.mem_cons]

@[simp] theorem mem_union {x : Sid} {a b : List Sid} : x ∈ union a b ↔ x ∈ a ∨ x ∈ b := by
  simp [union]

/-- Inserting a sid keeps the list ascending. -/
theorem pairwise_insert {b : Sid} {l : List Sid} (h : l.Pairwise (· < ·)) :
    (insert b l).Pairwise (· < ·) := by
  induction l with
  | nil => simp [insert]
  | cons s rest ih =>
    have ⟨hs, hrest⟩ := List.pairwise_cons.1 h
    unfold insert
    split
    · next hlt =>
      refine List.pairwise_cons.2 ⟨fun a ha => ?_, h⟩
      rcases List.mem_cons.1 ha with rfl | ha
      · exact hlt
      · exact Nat.lt_trans hlt (hs a ha)
    · split
      · exact h
      · refine List.pairwise_cons.2 ⟨fun a ha => ?_, ih hrest⟩
        rcases mem_insert.1 ha with hab | ha
        · grind
        · exact hs a ha

/-- The list is strictly ascending. -/
theorem pairwise_ofList (l : List Sid) : (ofList l).Pairwise (· < ·) := by
  induction l with
  | nil => simp [ofList]
  | cons s rest ih => exact pairwise_insert ih

end StoragePlan.SidList

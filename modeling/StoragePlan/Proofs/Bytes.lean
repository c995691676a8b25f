import StoragePlan.Proofs.Sectors

/-!
# Regions as sets of bytes

Two regions need not have sectors of one size, so `Region.overlaps` compares them in bytes. For
regions that end in the range and whose sectors have bytes (`Measured`) the comparison is exact:
it says whether the sets of bytes meet, in either order of the regions, and none of its products
leaves the 128 bits that they are computed in. Where the sizes are equal, `Region.contains` compares
the sets of sectors. The main statement is `comparisons_exact`.

What is not measured is reported, if it matters: `overlaps` fails exactly if both regions have
sectors and one of them ends beyond the range, and it reports the first one that does
(`overlaps_eq_error`).
-/

namespace StoragePlan.Region

/-- The largest number that a product can be: `2 ^ 128 - 1`. -/
def maxDoubleWord : Nat := 340282366920938463463374607431768211455

/-- The bytes of the region. -/
def bytes (r : Region) : Set Nat :=
  Set.Ico (r.start * r.sectorSize) ((r.start + r.length) * r.sectorSize)

/-- The region ends in the range, and its sectors have bytes. -/
structure Measured (r : Region) : Prop where
  ends : r.start + r.length ≤ maxWord
  sectorSize_pos : 0 < r.sectorSize
  sectorSize_le : r.sectorSize ≤ maxWord

variable {a b c r : Region}

/-! ### Bytes -/

theorem byteSpan_eq_ok {span : Nat × Nat} : r.byteSpan = .ok span ↔
    r.start + r.length ≤ maxWord ∧
      span = (r.start * r.sectorSize, (r.start + r.length) * r.sectorSize) := by
  unfold byteSpan
  by_cases ends : r.start + r.length ≤ maxWord
  · rw [stop_eq_ok ends]
    exact ⟨fun h => ⟨ends, (Except.ok.inj h).symm⟩, fun h => congrArg Except.ok h.2.symm⟩
  · rw [stop_eq_error (Nat.lt_of_not_le ends)]
    exact ⟨nofun, fun h => absurd h.1 ends⟩

theorem byteSpan_eq_error {o : Overflow} :
    r.byteSpan = .error o ↔ maxWord < r.start + r.length ∧ o = ⟨r⟩ := by
  unfold byteSpan
  by_cases ends : r.start + r.length ≤ maxWord
  · rw [stop_eq_ok ends]
    exact ⟨nofun, fun h => absurd h.1 (Nat.not_lt.2 ends)⟩
  · have beyond := Nat.lt_of_not_le ends
    rw [stop_eq_error beyond]
    exact ⟨fun h => ⟨beyond, (Except.error.inj h).symm⟩, fun h => congrArg Except.error h.2.symm⟩

/-- The product of two words is a double word. -/
theorem mul_le_maxDoubleWord {m n : Nat} (hm : m ≤ maxWord) (hn : n ≤ maxWord) :
    m * n ≤ maxDoubleWord :=
  Nat.le_trans (Nat.mul_le_mul hm hn) (by decide)

/-- What is compared are double words. -/
theorem span_le_maxDoubleWord {first last : Nat} (word : r.sectorSize ≤ maxWord)
    (h : r.byteSpan = .ok (first, last)) : first ≤ maxDoubleWord ∧ last ≤ maxDoubleWord := by
  obtain ⟨ends, span⟩ := byteSpan_eq_ok.1 h
  obtain ⟨rfl, rfl⟩ := Prod.mk.inj span
  exact ⟨mul_le_maxDoubleWord (by omega) word, mul_le_maxDoubleWord ends word⟩

/-- The sets of bytes meet if each region has sectors and starts before the other one ends. -/
theorem bytes_meet_iff (ha : 0 < a.sectorSize) (hb : 0 < b.sectorSize) :
    (a.bytes ∩ b.bytes).Nonempty ↔ (0 < a.length ∧ 0 < b.length) ∧
      a.start * a.sectorSize < (b.start + b.length) * b.sectorSize ∧
        b.start * b.sectorSize < (a.start + a.length) * a.sectorSize := by
  have nonempty : ∀ {r : Region}, 0 < r.sectorSize →
      (r.start * r.sectorSize < (r.start + r.length) * r.sectorSize ↔ 0 < r.length) := by
    intro r pos
    rw [Nat.mul_lt_mul_right pos]
    omega
  rw [bytes, bytes, Set.Ico_inter_Ico, Set.nonempty_Ico, sup_lt_iff, lt_inf_iff, lt_inf_iff,
    nonempty ha, nonempty hb]
  constructor
  · rintro ⟨⟨ha, before⟩, after, hb⟩
    exact ⟨⟨ha, hb⟩, before, after⟩
  · rintro ⟨⟨ha, hb⟩, before, after⟩
    exact ⟨⟨ha, before⟩, after, hb⟩

/-! ### Overlaps -/

/-- The comparison in bytes, which comes after the check for empty regions. -/
theorem overlaps_of_nonempty (ha : a.length ≠ 0) (hb : b.length ≠ 0) :
    a.overlaps b = (do
      let (aStart, aStop) ← a.byteSpan
      let (bStart, bStop) ← b.byteSpan
      return aStart < bStop && bStart < aStop) := by
  rw [overlaps, if_neg]
  simp [isEmpty, ha, hb]

theorem overlaps_of_isEmpty (h : a.length = 0 ∨ b.length = 0) : a.overlaps b = .ok false := by
  rw [overlaps, if_pos]
  simpa [isEmpty] using h

/-- Regions with sectors are compared if both end in the range, and the first one that does not is
reported otherwise. -/
theorem overlaps_eq_error {o : Overflow} : a.overlaps b = .error o ↔
    (a.length ≠ 0 ∧ b.length ≠ 0) ∧ (maxWord < a.start + a.length ∧ o = ⟨a⟩ ∨
      a.start + a.length ≤ maxWord ∧ maxWord < b.start + b.length ∧ o = ⟨b⟩) := by
  by_cases empty : a.length = 0 ∨ b.length = 0
  · rw [overlaps_of_isEmpty empty]
    exact ⟨nofun, fun h => absurd empty (not_or.2 h.1)⟩
  obtain ⟨ha, hb⟩ := not_or.1 empty
  rw [overlaps_of_nonempty ha hb, ← byteSpan_eq_error, ← byteSpan_eq_error]
  cases first : a.byteSpan with
  | error o' =>
    have beyond := (byteSpan_eq_error.1 first).1
    simp [bind, Except.bind, ha, hb, Nat.not_le.2 beyond]
  | ok span =>
    have ends := (byteSpan_eq_ok.1 first).1
    cases second : b.byteSpan with
    | error o' => simp [bind, Except.bind, ha, hb, ends]
    | ok span' => simp [bind, Except.bind, pure, Except.pure]

/-- Overlaps are looked for in vain only where both regions have sectors and one ends beyond the
range. -/
theorem overlaps_fails_iff : (∃ o, a.overlaps b = .error o) ↔
    a.length ≠ 0 ∧ b.length ≠ 0 ∧
      (maxWord < a.start + a.length ∨ maxWord < b.start + b.length) := by
  simp only [overlaps_eq_error]
  constructor
  · rintro ⟨o, ⟨ha, hb⟩, ⟨beyond, _⟩ | ⟨_, beyond, _⟩⟩
    · exact ⟨ha, hb, .inl beyond⟩
    · exact ⟨ha, hb, .inr beyond⟩
  · rintro ⟨ha, hb, beyond⟩
    by_cases ends : a.start + a.length ≤ maxWord
    · exact ⟨⟨b⟩, ⟨ha, hb⟩, .inr ⟨ends, beyond.resolve_left (Nat.not_lt.2 ends), rfl⟩⟩
    · exact ⟨⟨a⟩, ⟨ha, hb⟩, .inl ⟨Nat.lt_of_not_le ends, rfl⟩⟩

namespace Measured

theorem overlaps_total (ha : a.Measured) (hb : b.Measured) :
    ∃ shared, a.overlaps b = .ok shared := by
  cases h : a.overlaps b with
  | ok shared => exact ⟨shared, rfl⟩
  | error o =>
    obtain ⟨_, _, beyond⟩ := overlaps_fails_iff.1 ⟨o, h⟩
    have := ha.ends
    have := hb.ends
    omega

/-- Measured regions overlap exactly if they share a byte. -/
theorem overlaps_iff (ha : a.Measured) (hb : b.Measured) :
    a.overlaps b = .ok true ↔ (a.bytes ∩ b.bytes).Nonempty := by
  have apart : a.overlaps b = .ok false ↔ ¬(a.bytes ∩ b.bytes).Nonempty := by
    rw [overlaps_eq_false, bytes_meet_iff ha.sectorSize_pos hb.sectorSize_pos]
    have := ha.ends
    have := hb.ends
    omega
  obtain ⟨shared, h⟩ := ha.overlaps_total hb
  cases shared with
  | true => simpa [h] using apart
  | false => simpa [h] using apart

/-- The order of measured regions does not matter. -/
theorem overlaps_symm (ha : a.Measured) (hb : b.Measured) : a.overlaps b = b.overlaps a := by
  obtain ⟨shared, h⟩ := ha.overlaps_total hb
  obtain ⟨shared', h'⟩ := hb.overlaps_total ha
  have same : a.overlaps b = .ok true ↔ b.overlaps a = .ok true := by
    rw [ha.overlaps_iff hb, hb.overlaps_iff ha, Set.inter_comm]
  rw [h, h', Except.ok.injEq, Except.ok.injEq] at same
  rw [h, h', Bool.eq_iff_iff.2 same]

theorem contains_total (ha : a.Measured) (hb : b.Measured) :
    ∃ inside, a.contains b = .ok inside := by
  unfold contains
  rw [stop_eq_ok ha.ends, stop_eq_ok hb.ends]
  split
  · exact ⟨_, rfl⟩
  · split
    · exact ⟨_, rfl⟩
    · exact ⟨_, rfl⟩

/-- A region contains the sectors of another one of the same sector size exactly if it has them
all. -/
theorem contains_iff (ha : a.Measured) (size : a.sectorSize = b.sectorSize)
    (nonempty : b.length ≠ 0) : a.contains b = .ok true ↔ b.sectors ⊆ a.sectors := by
  have pos := Nat.pos_of_ne_zero nonempty
  rw [contains_eq_true, sectors, sectors, Set.Ico_subset_Ico_iff (by omega)]
  have := ha.ends
  omega

end Measured

/-! ### Containment -/

theorem contains_trans (h : a.contains b = .ok true) (h' : b.contains c = .ok true) :
    a.contains c = .ok true := by
  rw [contains_eq_true] at h h' ⊢
  omega

/-- Where sectors have bytes, a region overlaps what it contains. -/
theorem overlaps_of_contains (pos : 0 < b.sectorSize) (nonempty : b.length ≠ 0)
    (h : a.contains b = .ok true) : a.overlaps b = .ok true := by
  obtain ⟨size, start, stop, ends⟩ := contains_eq_true.1 h
  cases shared : a.overlaps b with
  | error o =>
    obtain ⟨_, _, beyond⟩ := overlaps_fails_iff.1 ⟨o, shared⟩
    omega
  | ok answer =>
    cases answer with
    | true => rfl
    | false =>
      have bytes : ∀ m n : Nat, m * b.sectorSize ≤ n * b.sectorSize ↔ m ≤ n := fun m n =>
        Nat.mul_le_mul_right_iff pos
      rw [overlaps_eq_false, size, bytes, bytes] at shared
      omega

/-! ### Both comparisons -/

/-- Measured regions overlap exactly if they share a byte, whichever comes first, and products of
their numbers are double words. With sectors of one size, a region contains another one that has
sectors exactly if it has all of these; so containment is transitive, and a region overlaps what it
contains. For any regions, the overlap is not told exactly if both have sectors and one ends beyond
the range. -/
theorem comparisons_exact :
    (∀ {a b : Region}, a.Measured → b.Measured → ∃ shared,
      a.overlaps b = .ok shared ∧ b.overlaps a = .ok shared ∧
        (shared = true ↔ (a.bytes ∩ b.bytes).Nonempty)) ∧
    (∀ {r : Region}, r.Measured → ∃ first last, r.byteSpan = .ok (first, last) ∧
      r.bytes = Set.Ico first last ∧ first ≤ maxDoubleWord ∧ last ≤ maxDoubleWord) ∧
    (∀ {a b : Region}, a.Measured → b.Measured → a.sectorSize = b.sectorSize → b.length ≠ 0 →
      ∃ inside, a.contains b = .ok inside ∧ (inside = true ↔ b.sectors ⊆ a.sectors) ∧
        (inside = true → a.overlaps b = .ok true)) ∧
    (∀ {a b c : Region}, a.contains b = .ok true → b.contains c = .ok true →
      a.contains c = .ok true) ∧
    (∀ {a b : Region}, (∃ o, a.overlaps b = .error o) ↔ a.length ≠ 0 ∧ b.length ≠ 0 ∧
      (maxWord < a.start + a.length ∨ maxWord < b.start + b.length)) := by
  refine ⟨fun ha hb => ?_, fun {r} h => ?_, fun ha hb size nonempty => ?_, contains_trans,
    overlaps_fails_iff⟩
  · obtain ⟨shared, h⟩ := ha.overlaps_total hb
    refine ⟨shared, h, ha.overlaps_symm hb ▸ h, ?_⟩
    rw [← ha.overlaps_iff hb, h, Except.ok.injEq]
  · have span := byteSpan_eq_ok.2 ⟨h.ends, rfl⟩
    exact ⟨_, _, span, rfl, span_le_maxDoubleWord h.sectorSize_le span⟩
  · obtain ⟨inside, h⟩ := ha.contains_total hb
    refine ⟨inside, h, ?_, fun yes => ?_⟩
    · rw [← ha.contains_iff size nonempty, h, Except.ok.injEq]
    · exact overlaps_of_contains hb.sectorSize_pos nonempty (yes ▸ h)

/-- Sectors of 512 and of 4096 bytes, of which the first start inside the last, and regions at the
end of the range. -/
theorem comparisons_exact_unequal :
    (∃ shared, overlaps ⟨100, 100, 512⟩ ⟨12, 1, 4096⟩ = .ok shared ∧
      overlaps ⟨12, 1, 4096⟩ ⟨100, 100, 512⟩ = .ok shared ∧
        (shared = true ↔ (bytes ⟨100, 100, 512⟩ ∩ bytes ⟨12, 1, 4096⟩).Nonempty)) ∧
    (∃ first last, byteSpan ⟨maxWord - 1, 1, maxWord⟩ = .ok (first, last) ∧
      bytes ⟨maxWord - 1, 1, maxWord⟩ = Set.Ico first last ∧
        first ≤ maxDoubleWord ∧ last ≤ maxDoubleWord) ∧
    (∃ inside, contains ⟨maxWord - 2, 2, 512⟩ ⟨maxWord - 1, 1, 512⟩ = .ok inside ∧
      (inside = true ↔ sectors ⟨maxWord - 1, 1, 512⟩ ⊆ sectors ⟨maxWord - 2, 2, 512⟩) ∧
        (inside = true → overlaps ⟨maxWord - 2, 2, 512⟩ ⟨maxWord - 1, 1, 512⟩ = .ok true)) ∧
    contains ⟨0, maxWord, 512⟩ ⟨maxWord - 1, 1, 512⟩ = .ok true := by
  have small : Measured ⟨100, 100, 512⟩ := ⟨by decide, by decide, by decide⟩
  have large : Measured ⟨12, 1, 4096⟩ := ⟨by decide, by decide, by decide⟩
  have widest : Measured ⟨maxWord - 1, 1, maxWord⟩ := ⟨by decide, by decide, by decide⟩
  have outer : Measured ⟨maxWord - 2, 2, 512⟩ := ⟨by decide, by decide, by decide⟩
  have inner : Measured ⟨maxWord - 1, 1, 512⟩ := ⟨by decide, by decide, by decide⟩
  have whole : contains ⟨0, maxWord, 512⟩ ⟨maxWord - 2, 2, 512⟩ = .ok true := by decide
  have part : contains ⟨maxWord - 2, 2, 512⟩ ⟨maxWord - 1, 1, 512⟩ = .ok true := by decide
  obtain ⟨overlaps, spans, contains, trans, _⟩ := comparisons_exact
  exact ⟨overlaps small large, spans widest, contains outer inner rfl (by decide),
    trans whole part⟩

end StoragePlan.Region

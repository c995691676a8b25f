import Mathlib.Algebra.Ring.Nat
import StoragePlan.Device.Basic
import StoragePlan.Yaml.Field
import StoragePlan.Yaml.Writer

/-!
# What scalars read back as

What is written for a number, a truth value, a word, a string or a uuid reads back as the same. A
string is quoted wherever its text would mean something else (`value?_ofString`), a number has no
leading zeros and so is one (`Meaning.ofText_toString`), and none of the words for values means
something else (`Named.Legible`).
-/

namespace StoragePlan

/-! ### Digits -/

namespace Numeral

variable {base n : Nat}

theorem digit?_digitChar (h : n < 16) : digit? n.digitChar = some n := by
  revert n
  decide

/-- One more digit. -/
def append? (base n : Nat) (c : Char) : Option Nat := do
  let d ← digit? c
  if d < base then some (n * base + d) else none

theorem ofDigits?_of_ne_nil {digits : List Char} (h : digits ≠ []) :
    ofDigits? base digits = digits.foldlM (append? base) 0 := by
  rw [ofDigits?, if_neg (by simpa using h)]
  rfl

theorem append?_digitChar {d : Nat} (hb : base ≤ 16) (hd : d < base) :
    append? base n d.digitChar = some (n * base + d) := by
  simp [append?, digit?_digitChar (Nat.lt_of_lt_of_le hd hb), hd]

/-- The digits of a number spell it. -/
theorem foldlM_toDigits (hb : 1 < base) (hb' : base ≤ 16) (n : Nat) :
    (Nat.toDigits base n).foldlM (append? base) 0 = some n := by
  -- the digits but the last spell `n / base`
  induction n using Nat.strongRecOn with
  | ind n ih =>
    by_cases h : n < base
    · simp [Nat.toDigits_of_lt_base h, append?_digitChar hb' h]
    · have below := Nat.div_lt_self (by omega : 0 < n) hb
      rw [Nat.toDigits_of_base_le hb (Nat.not_lt.1 h), List.foldlM_append, ih _ below]
      have last := Nat.mod_lt n (by omega : 0 < base)
      simp [append?_digitChar hb' last, Nat.div_add_mod']

theorem ofDigits?_toDigits (hb : 1 < base) (hb' : base ≤ 16) (n : Nat) :
    ofDigits? base (Nat.toDigits base n) = some n := by
  rw [ofDigits?_of_ne_nil Nat.toDigits_ne_nil, foldlM_toDigits hb hb']

/-- Only the number 0 begins with the digit for it. -/
theorem head?_toDigits (hb : 1 < base) (hb' : base ≤ 16) (hn : 0 < n) :
    (Nat.toDigits base n).head? ≠ some '0' := by
  induction n using Nat.strongRecOn with
  | ind n ih =>
    by_cases h : n < base
    · rw [Nat.toDigits_of_lt_base h]
      intro zero
      have spelled := digit?_digitChar (Nat.lt_of_lt_of_le h hb')
      rw [Option.some.inj zero] at spelled
      exact Nat.ne_of_lt hn (Option.some.inj spelled)
    · have below := Nat.div_lt_self hn hb
      have first := ih _ below (Nat.div_pos (Nat.not_lt.1 h) (by omega))
      obtain ⟨c, rest, digits⟩ := List.exists_cons_of_ne_nil (@Nat.toDigits_ne_nil (n / base) base)
      rw [digits] at first
      rwa [Nat.toDigits_of_base_le hb (Nat.not_lt.1 h), digits]

end Numeral

namespace Yaml

/-! ### Numbers and truth values -/

namespace Meaning

section

variable {cs : List Char} (digits : ∀ c ∈ cs, c.isDigit = true)
include digits

theorem dropPlus_of_digits : dropPlus cs = cs := by
  unfold dropPlus
  split
  · cases digits '+' List.mem_cons_self
  · rfl

theorem isSigned_of_digits : isSigned cs = false := by
  cases cs with
  | nil => rfl
  | cons c rest =>
    have digit := digits c List.mem_cons_self
    simp only [isSigned, List.head?_cons, Option.any_some, Bool.or_eq_false_iff,
      beq_eq_false_iff_ne]
    refine ⟨?_, ?_⟩ <;> rintro rfl <;> cases digit

theorem based?_of_digits : based? cs = none := by
  unfold based?
  split
  · cases digits 'x' (by simp)
  · cases digits 'o' (by simp)
  · cases digits 'b' (by simp)
  · rfl

end

variable {n : Nat}

/-- A number has no zeros in front. -/
theorem hasLeadingZero_toDigits (n : Nat) : hasLeadingZero (Nat.toDigits 10 n) = false := by
  have digits : ∀ c ∈ Nat.toDigits 10 n, c.isDigit = true := fun c =>
    Nat.isDigit_of_mem_toDigits (by decide) (by decide)
  rw [hasLeadingZero, isSigned_of_digits digits]
  rcases Nat.eq_zero_or_pos n with rfl | pos
  · rfl
  · have first : (Nat.toDigits 10 n).head? ≠ some '0' :=
      Numeral.head?_toDigits (by decide) (by decide) pos
    simp [first]

theorem natural?_toString (n : Nat) : natural? (toString n) = some n := by
  have digits : ∀ c ∈ Nat.toDigits 10 n, c.isDigit = true := fun c =>
    Nat.isDigit_of_mem_toDigits (by decide) (by decide)
  rw [natural?, Nat.toString_eq_ofList_toDigits, String.toList_ofList, dropPlus_of_digits digits,
    magnitude?, based?_of_digits digits, hasLeadingZero_toDigits]
  exact Numeral.ofDigits?_toDigits (by decide) (by decide) n

/-- No number is a word that is none. -/
theorem toString_notMem {words : List String} (h : ∀ w ∈ words, natural? w = none) :
    toString n ∉ words := by
  intro met
  have other := h _ met
  rw [natural?_toString] at other
  cases other

theorem ofText_toString (h : n ≤ maxWord) : ofText (toString n) = .natural n := by
  have empty : (toString n).isEmpty = false := by
    have other : toString n ∉ [""] := toString_notMem (by decide +kernel)
    rwa [List.mem_singleton, ← String.isEmpty_iff, Bool.not_eq_true] at other
  have null : isNull (toString n) = false := by
    rw [isNull, ← Bool.not_eq_true, List.contains_iff_mem]
    exact toString_notMem (by decide +kernel)
  have bool : bool? (toString n) = none := by
    rw [bool?, if_neg, if_neg]
    · rw [List.contains_iff_mem]
      exact toString_notMem (by decide +kernel)
    · rw [List.contains_iff_mem]
      exact toString_notMem (by decide +kernel)
  have fits : n < 1 <<< 64 := Nat.lt_succ_of_le h
  simp only [ofText, empty, null, bool, natural?_toString, fits, Bool.or_self, Bool.false_eq_true,
    if_false, if_true]

end Meaning

namespace Tree

variable {n : Nat}

theorem value?_number (h : n ≤ maxWord) : (number n).value? = some (.natural n) := by
  rw [number, plain, value?, Value.ofScalar?, Meaning.ofText_toString h]
  rfl

theorem natural?_number (h : n ≤ maxWord) : (number n).natural? = some n := by
  rw [number, plain, natural?, Meaning.natural?_toString]
  simp [h]

theorem value?_flag (b : Bool) : (flag b).value? = some (.bool b) := by
  have spelled : Meaning.ofText (if b then "true" else "false") = .bool b := by
    cases b <;> decide +kernel
  rw [flag, plain, value?, Value.ofScalar?, spelled]
  rfl

/-! ### Strings -/

theorem value?_plain {s : String} (h : Meaning.ofText s = .text) :
    (plain s).value? = some (.text s) := by
  rw [plain, value?, Value.ofScalar?, h]
  rfl

/-- A string that is not quoted means itself. -/
theorem value?_ofString (s : String) : (ofString s).value? = some (.text s) := by
  unfold ofString
  cases quoted : needsQuotes s with
  | true => rfl
  | false =>
    refine value?_plain ?_
    by_contra other
    simp [needsQuotes, other] at quoted

theorem values?_ofString (texts : List String) :
    values? (texts.map ofString) = some (texts.map .text) := by
  induction texts with
  | nil => rfl
  | cons s rest ih =>
    rw [List.map_cons, values?, value?_ofString, ih]
    rfl

theorem value?_strings (texts : List String) :
    (strings texts).value? = some (.list (texts.map .text)) := by
  rw [strings, value?, values?_ofString]
  rfl

end Tree

theorem mapM_map_eq {α β γ : Type} {write : α → β} {read : β → Option γ} {f : α → γ} {l : List α}
    (h : ∀ a ∈ l, read (write a) = some (f a)) : (l.map write).mapM read = some (l.map f) := by
  induction l with
  | nil => rfl
  | cons a rest ih =>
    obtain ⟨first, others⟩ := List.forall_mem_cons.1 h
    rw [List.map_cons, List.mapM_cons, first, ih others]
    rfl

/-- What reads back one by one reads back as a list. -/
theorem mapM_map_eq_self {α β : Type} {write : α → β} {read : β → Option α} {l : List α}
    (h : ∀ a ∈ l, read (write a) = some a) : (l.map write).mapM read = some l :=
  (mapM_map_eq h).trans (congrArg some (List.map_id l))

theorem Value.strings?_list (texts : List String) :
    Value.strings? (.list (texts.map .text)) = some texts :=
  mapM_map_eq_self fun _ _ => rfl

end Yaml

/-! ### Words -/

/-- Every value has a word of its own, which is a text. -/
class Named.Legible (α : Type) [Named α] : Prop where
  legible : ∀ a : α, Named.ofName? (Named.name a) = some a ∧
    Yaml.Meaning.ofText (Named.name a) = .text

instance : Named.Legible DeviceKind := ⟨fun a => by cases a <;> decide +kernel⟩
instance : Named.Legible HolderKind := ⟨fun a => by cases a <;> decide +kernel⟩
instance : Named.Legible Transport := ⟨fun a => by cases a <;> decide +kernel⟩
instance : Named.Legible PtType := ⟨fun a => by cases a <;> decide +kernel⟩
instance : Named.Legible PartitionType := ⟨fun a => by cases a <;> decide +kernel⟩
instance : Named.Legible FsType := ⟨fun a => by cases a <;> decide +kernel⟩
instance : Named.Legible MountBy := ⟨fun a => by cases a <;> decide +kernel⟩

namespace Yaml

variable {α : Type} [Named α] [Named.Legible α]

theorem Tree.value?_name (a : α) : (plain (Named.name a)).value? = some (.text (Named.name a)) :=
  value?_plain (Named.Legible.legible a).2

theorem Tree.named?_name (a : α) : (plain (Named.name a)).named? = some a :=
  (Named.Legible.legible a).1

theorem Value.key?_name (a : α) : (text (Named.name a)).key? = some a := (Named.Legible.legible a).1

theorem Value.choice?_name (a : α) : (text (Named.name a)).choice? = some a :=
  (Named.Legible.legible a).1

end Yaml

/-! ### Uuids -/

namespace Numeral

variable {base n : Nat}

theorem toList_hex (width n : Nat) : (hex width n).toList =
    List.replicate (width - (Nat.toDigits 16 n).length) '0' ++ Nat.toDigits 16 n := by
  have zeros : ∀ k, ("".pushn '0' k).toList = List.replicate k '0' := by
    intro k
    induction k with
    | zero => rfl
    | succ k ih =>
      rw [String.pushn_eq_repeat_push] at *
      rw [Nat.repeat, String.toList_push, ih, List.replicate_succ']
  rw [hex, String.toList_append, zeros, String.toList_ofList, String.length_ofList]

theorem length_hex {width : Nat} (pos : 0 < width) (h : n < 16 ^ width) :
    (hex width n).toList.length = width := by
  have fits := (Nat.length_toDigits_le_iff (by decide : 1 < 16) pos).2 h
  rw [toList_hex, List.length_append, List.length_replicate]
  omega

theorem ofDigits?_hex (width n : Nat) : ofDigits? 16 (hex width n).toList = some n := by
  have zeros : ∀ k, (List.replicate k '0').foldlM (append? 16) 0 = some 0 := by
    intro k
    induction k with
    | zero => rfl
    | succ k ih => exact ih
  rw [toList_hex, ofDigits?_of_ne_nil (List.append_ne_nil_of_right_ne_nil _ Nat.toDigits_ne_nil),
    List.foldlM_append, zeros]
  exact foldlM_toDigits (by decide) (by decide) n

/-- A number is spelled with digits only. -/
theorem exists_digit?_of_mem {digits : List Char} {m n : Nat} {c : Char}
    (h : digits.foldlM (append? base) m = some n) (hc : c ∈ digits) :
    ∃ d, digit? c = some d := by
  induction digits generalizing m with
  | nil => cases hc
  | cons a rest ih =>
    rw [List.foldlM_cons] at h
    obtain ⟨k, first, h⟩ := Option.bind_eq_some_iff.1 h
    rcases List.mem_cons.1 hc with rfl | hc
    · obtain ⟨d, digit, _⟩ := Option.bind_eq_some_iff.1 first
      exact ⟨d, digit⟩
    · exact ih h hc

theorem exists_digit?_of_mem_hex {width : Nat} {c : Char} (hc : c ∈ (hex width n).toList) :
    ∃ d, digit? c = some d := by
  have spelled := ofDigits?_hex width n
  rw [ofDigits?_of_ne_nil (List.ne_nil_of_mem hc)] at spelled
  exact exists_digit?_of_mem spelled hc

theorem hyphen_notMem_hex (width n : Nat) : '-' ∉ (hex width n).toList := by
  intro met
  obtain ⟨d, digit⟩ := exists_digit?_of_mem_hex met
  cases digit

end Numeral

namespace Uuid

/-- The number has 128 bits. -/
def InRange (u : Uuid) : Prop := u.value < 2 ^ 128

section

variable {α : Type} {lengths : List Nat} {xs : List α}

theorem length_cut (h : lengths.sum ≤ xs.length) : (cut lengths xs).map List.length = lengths := by
  induction lengths generalizing xs with
  | nil => rfl
  | cons n rest ih =>
    rw [List.sum_cons] at h
    rw [cut, List.map_cons, List.length_take, ih (by rw [List.length_drop]; omega)]
    congr 1
    omega

theorem flatten_cut (h : xs.length ≤ lengths.sum) : (cut lengths xs).flatten = xs := by
  induction lengths generalizing xs with
  | nil => exact (List.eq_nil_of_length_eq_zero (Nat.le_zero.1 h)).symm
  | cons n rest ih =>
    rw [List.sum_cons] at h
    rw [cut, List.flatten_cons, ih (by rw [List.length_drop]; omega), List.take_append_drop]

theorem mem_of_mem_cut {part : List α} {x : α} (hp : part ∈ cut lengths xs) (hx : x ∈ part) :
    x ∈ xs := by
  induction lengths generalizing xs with
  | nil => cases hp
  | cons n rest ih =>
    rcases List.mem_cons.1 hp with rfl | hp
    · exact List.mem_of_mem_take hx
    · exact List.mem_of_mem_drop (ih hp)

end

variable {u : Uuid}

theorem toList_text (u : Uuid) :
    u.text.toList = ['-'].intercalate (cut groups (Numeral.hex 32 u.value).toList) := by
  have chars : ∀ parts : List (List Char), (parts.map String.ofList).map String.toList = parts := by
    intro parts
    rw [List.map_map]
    exact (List.map_congr_left fun _ _ => String.toList_ofList).trans (List.map_id _)
  have hyphen : "-".toList = ['-'] := by decide
  rw [text, String.toList_intercalate, chars, hyphen]

theorem ofText?_text (h : u.InRange) : ofText? u.text = some u := by
  have digits : (Numeral.hex 32 u.value).toList.length = 32 := Numeral.length_hex (by decide) h
  have hyphens : u.text.length = 36 := by
    rw [← String.length_toList, toList_text]
    simp [cut, groups, List.intercalate, digits]
  have parts : u.text.toList.splitOn '-' = cut groups (Numeral.hex 32 u.value).toList := by
    rw [toList_text]
    refine List.splitOn_intercalate '-' (fun part hp met => ?_) (by simp [cut, groups])
    exact Numeral.hyphen_notMem_hex _ _ (mem_of_mem_cut hp met)
  rw [ofText?, if_neg (by rw [hyphens]; decide), if_pos hyphens, ofHyphenated?]
  simp only [parts]
  have total : groups.sum = (Numeral.hex 32 u.value).toList.length := digits.symm
  rw [if_pos (length_cut (Nat.le_of_eq total)), flatten_cut (Nat.le_of_eq total.symm), ofDigits?,
    if_pos digits, Numeral.ofDigits?_hex]
  rfl

end Uuid

end StoragePlan

import Mathlib.Data.List.Forall2

/-!
# Attempts over lists

Looking something up in a devicegraph is an attempt that may fail, and most questions to a
devicegraph are attempts for every element of a list. This module tells when a sequence of attempts
succeeds, and what is in its result: `..._total` says that it does when every single attempt does,
`mem_...` what the members of the result are.
-/

namespace StoragePlan.Attempt

variable {α β ε : Type}

/-- One attempt after another succeeds when both do. -/
theorem bind_eq_ok {x : Except ε α} {f : α → Except ε β} {b : β} :
    (x >>= f) = .ok b ↔ ∃ a, x = .ok a ∧ f a = .ok b := by
  cases x <;> simp [bind, Except.bind]

/-- A check before another one. -/
theorem check_bind_eq_ok {x : Except ε Unit} {f : Unit → Except ε β} {b : β} :
    (x >>= f) = .ok b ↔ x = .ok () ∧ f () = .ok b := by
  rw [bind_eq_ok]
  constructor
  · rintro ⟨_, h⟩
    exact h
  · intro h
    exact ⟨(), h⟩

theorem bind_total {x : Except ε α} {f : α → Except ε β} (hx : ∃ a, x = .ok a)
    (hf : ∀ a, x = .ok a → ∃ b, f a = .ok b) : ∃ b, (x >>= f) = .ok b := by
  obtain ⟨a, ha⟩ := hx
  obtain ⟨b, hb⟩ := hf a ha
  exact ⟨b, bind_eq_ok.2 ⟨a, ha, hb⟩⟩

theorem pure_eq_ok {a b : α} : (pure a : Except ε α) = .ok b ↔ a = b := by
  simp [pure, Except.pure]

/-- A refusal lets only those pass for whom its condition does not hold. -/
theorem refuse_eq_ok {p : Prop} [Decidable p] {e : ε} {x : Except ε α} {a : α} :
    (if p then throw e else x) = .ok a ↔ ¬p ∧ x = .ok a := by
  by_cases h : p <;> simp [h, throw, throwThe, MonadExceptOf.throw]

/-- The same for a refusal with more to do after it. -/
theorem refuse_bind_eq_ok {p : Prop} [Decidable p] {e : ε} {f : β → Except ε α} {x : Except ε α}
    {a : α} : (if p then throw e >>= f else x) = .ok a ↔ ¬p ∧ x = .ok a := by
  by_cases h : p <;> simp [h, throw, throwThe, MonadExceptOf.throw, bind, Except.bind]

/-- An attempt for each element succeeds when all attempts do. -/
theorem forM_eq_ok {f : α → Except ε Unit} {l : List α} {u : Unit} :
    l.forM f = .ok u ↔ ∀ a ∈ l, f a = .ok () := by
  induction l with
  | nil => simp [List.forM_eq_forM, pure, Except.pure]
  | cons a rest ih =>
    rw [List.forM_eq_forM, List.forM_cons, bind_eq_ok, List.forall_mem_cons,
      ← List.forM_eq_forM, ih]
    constructor
    · rintro ⟨_, h, hrest⟩
      exact ⟨h, hrest⟩
    · rintro ⟨h, hrest⟩
      exact ⟨(), h, hrest⟩

theorem mapM_total {f : α → Except ε β} {l : List α} (h : ∀ a ∈ l, ∃ b, f a = .ok b) :
    ∃ r, l.mapM f = .ok r := by
  induction l with
  | nil => exact ⟨[], rfl⟩
  | cons a rest ih =>
    obtain ⟨⟨b, hb⟩, h⟩ := List.forall_mem_cons.1 h
    obtain ⟨bs, hbs⟩ := ih h
    exact ⟨b :: bs, by rw [List.mapM_cons, hb, hbs]; rfl⟩

theorem mem_mapM {f : α → Except ε β} {l : List α} {r : List β} (h : l.mapM f = .ok r) {b : β} :
    b ∈ r ↔ ∃ a ∈ l, f a = .ok b := by
  induction l generalizing r with
  | nil =>
    rw [List.mapM_nil, pure_eq_ok] at h
    simp [← h]
  | cons a rest ih =>
    simp only [List.mapM_cons, bind_eq_ok, pure_eq_ok] at h
    obtain ⟨b', hb', bs, hbs, rfl⟩ := h
    simp only [List.mem_cons, ih hbs, exists_eq_or_imp, hb', Except.ok.injEq, @eq_comm _ b b']

/-- When all attempts succeed, each does. -/
theorem of_mem_mapM {f : α → Except ε β} {l : List α} {r : List β} (h : l.mapM f = .ok r) {a : α}
    (ha : a ∈ l) : ∃ b, f a = .ok b := by
  induction l generalizing r with
  | nil => cases ha
  | cons a' rest ih =>
    simp only [List.mapM_cons, bind_eq_ok, pure_eq_ok] at h
    obtain ⟨b', hb', bs, hbs, rfl⟩ := h
    rcases List.mem_cons.1 ha with rfl | ha
    · exact ⟨b', hb'⟩
    · exact ih hbs ha

theorem mapM_eq_filterMap {f : α → Except ε β} {l : List α} {r : List β}
    (h : l.mapM f = .ok r) : r = l.filterMap fun a => (f a).toOption := by
  induction l generalizing r with
  | nil =>
    rw [List.mapM_nil, pure_eq_ok] at h
    rw [← h, List.filterMap_nil]
  | cons a rest ih =>
    simp only [List.mapM_cons, bind_eq_ok, pure_eq_ok] at h
    obtain ⟨b, hb, bs, hbs, rfl⟩ := h
    rw [List.filterMap_cons, hb, Except.toOption, ih hbs]

/-- What the attempts leave unchanged, the results have in the same order. -/
theorem map_mapM {γ : Type} {f : α → Except ε β} {before : α → γ} {after : β → γ}
    (hf : ∀ a b, f a = .ok b → after b = before a) {l : List α} {r : List β}
    (h : l.mapM f = .ok r) : r.map after = l.map before := by
  induction l generalizing r with
  | nil =>
    rw [List.mapM_nil, pure_eq_ok] at h
    simp [← h]
  | cons a rest ih =>
    simp only [List.mapM_cons, bind_eq_ok, pure_eq_ok] at h
    obtain ⟨b, hb, bs, hbs, rfl⟩ := h
    rw [List.map_cons, List.map_cons, hf a b hb, ih hbs]

/-- Attempts that keep a property have as many results with it as there were elements with it. -/
theorem countP_mapM {f : α → Except ε β} {before : α → Bool} {after : β → Bool}
    (hf : ∀ a b, f a = .ok b → after b = before a) {l : List α} {r : List β}
    (h : l.mapM f = .ok r) : r.countP after = l.countP before := by
  have same : (r.map after).countP id = (l.map before).countP id := by rw [map_mapM hf h]
  simpa [List.countP_map] using same

/-- A search in which every test succeeds finds the first element that passes, if any does. -/
theorem findM?_spec {α : Type} {f : α → Except ε Bool} {l : List α}
    (h : ∀ a ∈ l, ∃ b, f a = .ok b) : ∃ r, l.findM? f = .ok r ∧
      (∀ a, r = some a → a ∈ l ∧ f a = .ok true) ∧ (r = none → ∀ a ∈ l, f a = .ok false) := by
  induction l with
  | nil => exact ⟨none, rfl, by simp, by simp⟩
  | cons a rest ih =>
    obtain ⟨⟨b, hb⟩, hrest⟩ := List.forall_mem_cons.1 h
    cases b with
    | true =>
      refine ⟨some a, by simp only [List.findM?, hb]; rfl, ?_, by simp⟩
      rintro _ ⟨rfl⟩
      exact ⟨List.mem_cons_self, hb⟩
    | false =>
      obtain ⟨r, hr, found, missing⟩ := ih hrest
      refine ⟨r, by simp only [List.findM?, hb]; exact hr, fun x hx => ?_, fun none => ?_⟩
      · exact ⟨List.mem_cons_of_mem _ (found x hx).1, (found x hx).2⟩
      · exact List.forall_mem_cons.2 ⟨hb, missing none⟩

theorem flatMapM_total {f : α → Except ε (List β)} {l : List α}
    (h : ∀ a ∈ l, ∃ bs, f a = .ok bs) : ∃ r, l.flatMapM f = .ok r := by
  induction l with
  | nil => exact ⟨[], rfl⟩
  | cons a rest ih =>
    obtain ⟨⟨b, hb⟩, h⟩ := List.forall_mem_cons.1 h
    obtain ⟨bs, hbs⟩ := ih h
    exact ⟨b ++ bs, by rw [List.flatMapM_cons, hb, hbs]; rfl⟩

theorem mem_flatMapM {f : α → Except ε (List β)} {l : List α} {r : List β}
    (h : l.flatMapM f = .ok r) {b : β} : b ∈ r ↔ ∃ a ∈ l, ∃ bs, f a = .ok bs ∧ b ∈ bs := by
  induction l generalizing r with
  | nil =>
    rw [List.flatMapM_nil, pure_eq_ok] at h
    simp [← h]
  | cons a rest ih =>
    simp only [List.flatMapM_cons, bind_eq_ok, pure_eq_ok] at h
    obtain ⟨bs, hbs, bss, hbss, rfl⟩ := h
    simp only [List.mem_append, ih hbss, List.mem_cons, exists_eq_or_imp, hbs, Except.ok.injEq,
      exists_eq_left']

/-- With an answer for every element there is one for the list. -/
theorem flatMapM_spec {f : α → Except ε (List β)} {l : List α} {P : α → β → Prop}
    (h : ∀ a ∈ l, ∃ bs, f a = .ok bs ∧ ∀ b, b ∈ bs ↔ P a b) :
    ∃ r, l.flatMapM f = .ok r ∧ ∀ b, b ∈ r ↔ ∃ a ∈ l, P a b := by
  obtain ⟨r, hr⟩ := flatMapM_total fun a ha => (h a ha).imp fun _ => And.left
  refine ⟨r, hr, fun b => (mem_flatMapM hr).trans (exists_congr fun a => and_congr_right fun ha => ?_)⟩
  obtain ⟨bs, hbs, mem⟩ := h a ha
  simp [hbs, mem]

/-! ### Attempts for related elements -/

section

variable {α' β' γ : Type} {R : α → α' → Prop} {l : List α} {l' : List α'}

/-- What is looked at of the results can be looked at one by one. -/
theorem map_mapM_cons {f : α → Except ε β} {look : β → γ} {a : α} :
    List.map look <$> (a :: l).mapM f = look <$> f a >>= fun c =>
      List.map look <$> l.mapM f >>= fun cs => pure (c :: cs) := by
  rw [List.mapM_cons]
  cases f a with
  | error _ => rfl
  | ok _ => cases l.mapM f <;> rfl

/-- Attempts for related elements have results that are the same as far as is looked at them. -/
theorem map_mapM_of_forall₂ {f : α → Except ε β} {f' : α' → Except ε β'} {look : β → γ}
    {look' : β' → γ} (related : List.Forall₂ R l l')
    (same : ∀ a a', R a a' → look <$> f a = look' <$> f' a') :
    List.map look <$> l.mapM f = List.map look' <$> l'.mapM f' := by
  induction related with
  | nil => rfl
  | cons here _ ih => rw [map_mapM_cons, map_mapM_cons, same _ _ here, ih]

theorem mapM_of_forall₂ {f : α → Except ε β} {f' : α' → Except ε β} (related : List.Forall₂ R l l')
    (same : ∀ a a', R a a' → f a = f' a') : l.mapM f = l'.mapM f' := by
  induction related with
  | nil => rfl
  | cons here _ ih => rw [List.mapM_cons, List.mapM_cons, same _ _ here, ih]

theorem flatMapM_of_forall₂ {f : α → Except ε (List β)} {f' : α' → Except ε (List β)}
    (related : List.Forall₂ R l l') (same : ∀ a a', R a a' → f a = f' a') :
    l.flatMapM f = l'.flatMapM f' := by
  induction related with
  | nil => rfl
  | cons here _ ih => rw [List.flatMapM_cons, List.flatMapM_cons, same _ _ here, ih]

end

end StoragePlan.Attempt

import StoragePlan.Proofs.Documents
import StoragePlan.Proofs.Operations
import StoragePlan.Session.Commit
import StoragePlan.Session.Probe

/-!
# What commands do

A command on a session changes its devicegraphs in one last step, after all that can fail.
Questions, plans and everything written to the log or to files leave the devicegraphs and the supply
of sids alone (`Quiet`). To read a document reserves sids as well, also when the document is refused
(`Reading`, `Fetches`). For each command that changes devicegraphs, a lemma says which.
-/

namespace StoragePlan

/-! ### Steps that keep something -/

namespace Step

variable {σ α β : Type} {R : σ → σ → Prop} {x : Step σ α} {f : α → Step σ β}

theorem bind_eq_error {s s' : σ} {e : Failure} : (x >>= f) s = .error e s' ↔
    x s = .error e s' ∨ ∃ a s₁, x s = .ok a s₁ ∧ f a s₁ = .error e s' := by
  simp only [Bind.bind, EStateM.bind]
  cases x s <;> simp

theorem after_bind_of_ok {s s' : σ} {a : α} (h : x s = .ok a s') :
    (x >>= f).after s = (f a).after s' := by rw [after, bind_of_ok h, after]

/-- However the step ends, the states before and after it are related. -/
def Keeps (R : σ → σ → Prop) (x : Step σ α) : Prop := ∀ s, R s (x.after s)

namespace Keeps

theorem pure [Std.Refl R] (a : α) : Keeps R (pure a) := fun s => refl_of R s

theorem throw [Std.Refl R] (e : Failure) : Keeps R (throw e : Step σ α) := fun s => refl_of R s

theorem modify {f : σ → σ} (h : ∀ s, R s (f s)) : Keeps R (modify f) := h

theorem mapFailure {change : Failure → Failure} (h : Keeps R x) : Keeps R (x.mapFailure change) :=
  fun s => (after_mapFailure (x := x)).symm ▸ h s

theorem mono {Q : σ → σ → Prop} (h : Keeps R x) (weaker : ∀ {s s'}, R s s' → Q s s') : Keeps Q x :=
  fun s => weaker (h s)

theorem of_ok (h : Keeps R x) {s s' : σ} {a : α} (hx : x s = .ok a s') : R s s' :=
  after_of_ok hx ▸ h s

theorem of_error (h : Keeps R x) {s s' : σ} {e : Failure} (hx : x s = .error e s') : R s s' :=
  after_of_error hx ▸ h s

/-- Either the first step fails, or the second one goes on. -/
theorem after_bind (h : Keeps R x) (s : σ) : R s ((x >>= f).after s) ∨
    ∃ a s', x s = .ok a s' ∧ R s s' ∧ (x >>= f).after s = (f a).after s' := by
  cases hx : x s with
  | ok a s' => exact .inr ⟨a, s', rfl, h.of_ok hx, after_bind_of_ok hx⟩
  | error e s' =>
    refine .inl ?_
    rw [after_of_error (bind_of_error hx), ← after_of_error hx]
    exact h s

theorem bind [IsTrans σ R] (h : Keeps R x) (hf : ∀ a, Keeps R (f a)) : Keeps R (x >>= f) := by
  intro s
  rcases h.after_bind (f := f) s with failed | ⟨a, s', _, first, rest⟩
  · exact failed
  · rw [rest]
    exact IsTrans.trans _ _ _ first (hf a s')

theorem forM [Std.Refl R] [IsTrans σ R] {step : α → Step σ Unit} (h : ∀ a, Keeps R (step a))
    (l : List α) : Keeps R (l.forM step) := by
  induction l with
  | nil => exact .pure ()
  | cons a rest ih =>
    rw [List.forM_eq_forM, List.forM_cons]
    exact (h a).bind fun _ => ih

end Keeps

end Step

/-! ### Reading into an empty devicegraph -/

namespace Edit

/-- Only sids are taken out of the supply, whatever becomes of the devicegraph. -/
def Raises (s s' : Editor) : Prop := s.supply.Raised s'.supply

instance : Std.Refl Raises := ⟨fun s => .refl s.supply⟩

instance : IsTrans Editor Raises := ⟨fun _ _ _ h h' => h.trans h'⟩

theorem ChecksFirst.keeps {R : Editor → Editor → Prop} [Std.Refl R] {α : Type} {x : Edit α}
    {verdict : Editor → Except Failure Unit} {done : Editor → α → Editor → Prop}
    (h : ∀ s, ChecksFirst x s (verdict s) (done s)) (hdone : ∀ s a s', done s a s' → R s s') :
    Step.Keeps R x := by
  intro s
  rcases (h s).after with same | ⟨_, a, effect⟩
  · rw [same]
    exact Std.Refl.refl s
  · exact hdone s a _ effect

theorem raises_insertDevice (d : Device) : Step.Keeps Raises (insertDevice d) := by
  intro s
  have state : (get : Edit Editor) s = .ok s s := rfl
  cases taken : s.graph.contains d.sid with
  | true =>
    have refused : insertDevice d s = .error ↑(TopologyFault.duplicateSid d.sid) s := by
      rw [insertDevice, Step.bind_of_ok state, taken]
      rfl
    rw [Step.after_of_error refused]
    exact .refl _
  | false =>
    rw [Step.after_of_ok (insertDevice_eq_ok.2 ⟨taken, rfl⟩)]
    exact SidSupply.raised_reserve ..

theorem raises_addHolder (source target : Sid) (kind : HolderKind) :
    Step.Keeps Raises (addHolder source target kind) :=
  ChecksFirst.keeps (fun _ => addHolder_checksFirst source target kind) fun s _ _ changed => by
    rw [Raises, changed.supply]
    exact .refl _

theorem raises_check : Step.Keeps Raises check := by
  refine .bind (.modify fun s => .refl _) fun _ s => ?_
  rw [Step.after, ask]
  cases s.graph.check <;> exact .refl _

theorem raises_load (d : Document) : Step.Keeps Raises (load d) := by
  have holders := Step.Keeps.forM (fun h : Holder => raises_addHolder h.source h.target h.kind)
  exact (Step.Keeps.forM raises_insertDevice d.devices).bind fun _ =>
    (holders d.holders).bind fun _ => raises_check.mapFailure

/-- Reading a text only reserves sids, also when it is refused. -/
theorem raises_loadText (text : String) : Step.Keeps Raises (loadText text) := by
  intro s
  unfold loadText
  split
  · exact raises_load _ s
  · exact .refl _

end Edit

/-! ### The devicegraphs of a session -/

namespace Keyed

variable {α : Type} {key other : String} {value : α} {values : Keyed α}

theorem get?_insert : (values.insert key value).get? other =
    if other = key then some value else values.get? other := by
  induction values with
  | nil =>
    simp only [insert, get?, List.lookup_cons]
    grind
  | cons entry rest ih =>
    obtain ⟨k, v⟩ := entry
    simp only [get?] at ih
    simp only [insert, get?]
    split
    · simp only [List.lookup_cons]
      grind
    · split
      · next same =>
        subst same
        simp only [List.lookup_cons]
        grind
      · simp only [List.lookup_cons, ih]
        grind

theorem get?_erase : (values.erase key).get? other =
    if other = key then none else values.get? other := by
  induction values with
  | nil => simp [erase, get?]
  | cons entry rest ih =>
    obtain ⟨k, v⟩ := entry
    simp only [get?, erase] at ih ⊢
    rw [List.filter_cons]
    split <;> simp only [List.lookup_cons, ih] <;> grind

end Keyed

namespace Session

variable {s s' s'' : Session} {g : Devicegraph} {name other : String}

/-- The devicegraphs and the settings are the same. -/
structure Same (s s' : Session) : Prop where
  environment : s'.environment = s.environment
  probed : s'.probed = s.probed
  staging : s'.staging = s.staging
  others : s'.others = s.others

/-- Only the log and the files changed. -/
structure Quiet (s s' : Session) : Prop extends Same s s' where
  supply : s'.supply = s.supply

/-- Only the log and the files changed, and sids were reserved. -/
structure Reading (s s' : Session) : Prop extends Same s s' where
  supply : s.supply.Raised s'.supply

theorem Same.trans (h : Same s s') (h' : Same s' s'') : Same s s'' :=
  ⟨h'.environment.trans h.environment, h'.probed.trans h.probed, h'.staging.trans h.staging,
    h'.others.trans h.others⟩

instance : Std.Refl Quiet := ⟨fun _ => ⟨⟨rfl, rfl, rfl, rfl⟩, rfl⟩⟩

instance : IsTrans Session Quiet :=
  ⟨fun _ _ _ h h' => ⟨h.toSame.trans h'.toSame, h'.supply.trans h.supply⟩⟩

instance : Std.Refl Reading := ⟨fun s => ⟨⟨rfl, rfl, rfl, rfl⟩, .refl s.supply⟩⟩

instance : IsTrans Session Reading :=
  ⟨fun _ _ _ h h' => ⟨h.toSame.trans h'.toSame, h.supply.trans h'.supply⟩⟩

theorem Quiet.reading (h : Quiet s s') : Reading s s' := ⟨h.toSame, h.supply ▸ .refl s.supply⟩

theorem Same.graph (h : Same s s') (name : String) : s'.graph name = s.graph name := by
  unfold Session.graph
  rw [h.probed, h.staging, h.others]

/-- The devicegraph is one of the session. -/
def Has (s : Session) (g : Devicegraph) : Prop := ∃ name, s.graph name = .ok g

theorem graphForChange_eq_ok :
    s.graphForChange name = .ok g ↔ name ≠ probedName ∧ s.graph name = .ok g := by
  unfold graphForChange
  split
  · next reserved => simp [reserved]
  · next free => simp [free]

theorem graph_setGraph (free : name ≠ probedName) :
    (s.setGraph name g).graph other = if other = name then .ok g else s.graph other := by
  by_cases same : other = name
  · subst same
    unfold setGraph graph
    by_cases staged : other = stagingName
    · simp [staged, show stagingName ≠ probedName by decide]
    · simp [staged, free, Keyed.get?_insert]
  · unfold setGraph graph
    by_cases staged : name = stagingName
    · subst staged
      simp [same]
    · simp [staged, same, Keyed.get?_insert]

end Session

/-! ### Commands -/

/-- A plan leads from the one devicegraph to the other, which both passed their checks. -/
theorem Plan.of_between {lhs rhs : Devicegraph} {p : Plan} (h : between lhs rhs = .ok p) :
    p.lhs = lhs ∧ p.rhs = rhs ∧ lhs.check = .ok () ∧ rhs.check = .ok () := by
  obtain ⟨hl, hr, _, _, _, _, rfl⟩ := between_eq_ok.1 h
  exact ⟨rfl, rfl, hl, hr⟩

namespace Command

open Session Step

variable {s s' : Session} {name : String} {g : Devicegraph}

theorem quiet_lift {α : Type} (r : Except Failure α) : Keeps Quiet (lift r) := by
  cases r with
  | ok a => exact .pure a
  | error f => exact .throw f

theorem lift_eq_ok {α : Type} {r : Except Failure α} {a : α} :
    lift r s = .ok a s' ↔ r = .ok a ∧ s' = s := by
  cases r with
  | ok b =>
    constructor
    · rintro ⟨⟩
      exact ⟨rfl, rfl⟩
    · rintro ⟨⟨⟩, rfl⟩
      rfl
  | error f =>
    refine iff_of_false (fun h => ?_) (by simp)
    cases h

theorem quiet_write (records : List Record) : Keeps Quiet (write records) :=
  .modify fun _ => ⟨⟨rfl, rfl, rfl, rfl⟩, rfl⟩

theorem quiet_log (level : Level) (message : String) : Keeps Quiet (log level message) :=
  quiet_write _

theorem quiet_get : Keeps Quiet (get : Command Session) := fun s => Std.Refl.refl s

theorem quiet_takeLog : Keeps Quiet takeLog := fun _ => ⟨⟨rfl, rfl, rfl, rfl⟩, rfl⟩

theorem quiet_graph (name : String) : Keeps Quiet (graph name) :=
  quiet_get.bind fun _ => quiet_lift _

theorem graph_eq_ok : graph name s = .ok g s' ↔ s.graph name = .ok g ∧ s' = s := by
  have state : (get : Command Session) s = .ok s s := rfl
  rw [graph, bind_of_ok state, lift_eq_ok]

theorem quiet_check (name : String) : Keeps Quiet (check name) :=
  (quiet_graph name).bind fun _ => (quiet_write _).bind fun _ => quiet_lift _

theorem quiet_checkNameFree (name : String) : Keeps Quiet (checkNameFree name) := by
  refine quiet_get.bind fun s => ?_
  split
  · exact .throw _
  · exact .pure _

theorem checkNameFree_eq_ok :
    checkNameFree name s = .ok () s' ↔ s.hasGraph name = false ∧ s' = s := by
  have state : (get : Command Session) s = .ok s s := rfl
  rw [checkNameFree, bind_of_ok state]
  cases s.hasGraph name with
  | true => exact iff_of_false (fun h => by cases h) (by simp)
  | false =>
    rw [and_iff_right rfl]
    constructor
    · rintro ⟨⟩
      rfl
    · rintro rfl
      rfl

theorem quiet_planBetween (lhs rhs : Devicegraph) : Keeps Quiet (planBetween lhs rhs) :=
  (quiet_write _).bind fun _ => quiet_lift _

theorem quiet_plan (lhs rhs : String) : Keeps Quiet (plan lhs rhs) :=
  (quiet_graph lhs).bind fun _ => (quiet_graph rhs).bind fun _ => quiet_planBetween _ _

theorem quiet_calculate : Keeps Quiet calculate :=
  quiet_get.bind fun _ => (quiet_planBetween _ _).mapFailure

theorem quiet_writeFile (fault : InputFault) (path text : String) :
    Keeps Quiet (writeFile fault path text) := by
  refine quiet_get.bind fun s => ?_
  split
  · exact .modify fun _ => ⟨⟨rfl, rfl, rfl, rfl⟩, rfl⟩
  · exact .throw _

theorem quiet_save (name path : String) : Keeps Quiet (save name path) :=
  (quiet_graph name).bind fun _ => (quiet_log _ _).bind fun _ => quiet_writeFile _ _ _

theorem quiet_draw (name path : String) : Keeps Quiet (draw name path) :=
  (quiet_graph name).bind fun _ => quiet_writeFile _ _ _

theorem quiet_drawPlan (lhs rhs path : String) : Keeps Quiet (drawPlan lhs rhs path) :=
  (quiet_plan lhs rhs).bind fun _ => quiet_writeFile _ _ _

/-! ### Commands that change devicegraphs -/

theorem edit_after {α : Type} (h : s.graphForChange name = .ok g) (e : Edit α) :
    (edit name e).after s =
      (s.adopt (e.after (s.editor g))).setGraph name (e.after (s.editor g)).graph := by
  cases he : e (s.editor g) <;> simp only [Step.after, edit, h, he]

theorem edit_refused {α : Type} {f : Failure} (h : s.graphForChange name = .error f) (e : Edit α) :
    (edit name e).after s = s := by
  simp only [Step.after, edit, h]

theorem edit_eq_ok {α : Type} {e : Edit α} {a : α} : edit name e s = .ok a s' ↔
    ∃ g e', s.graphForChange name = .ok g ∧ e (s.editor g) = .ok a e' ∧
      (s.adopt e').setGraph name e'.graph = s' := by
  cases hg : s.graphForChange name with
  | error f => simp [edit, hg]
  | ok g =>
    cases he : e (s.editor g) with
    | error f e' => simp [edit, hg, he]
    | ok b e' => simp [edit, hg, he, and_assoc]

theorem quiet_setGraph (h : Quiet s s') (name : String) (g : Devicegraph) :
    Quiet (s.setGraph name g) (s'.setGraph name g) := by
  unfold setGraph
  split
  · exact ⟨⟨h.environment, h.probed, rfl, h.others⟩, h.supply⟩
  · exact ⟨⟨h.environment, h.probed, h.staging, by rw [h.others]⟩, h.supply⟩

theorem createGraph_after (s : Session) (name : String) : Quiet s ((createGraph name).after s) ∨
    s.hasGraph name = false ∧ Quiet (s.setGraph name .empty) ((createGraph name).after s) := by
  rcases (quiet_checkNameFree name).after_bind s with failed | ⟨_, s₁, free, _, rest⟩
  · exact .inl failed
  · obtain ⟨free, rfl⟩ := checkNameFree_eq_ok.1 free
    refine .inr ⟨free, ?_⟩
    rw [createGraph, rest]
    exact quiet_setGraph (quiet_log _ _ s₁) ..

theorem copyGraph_of_free {source dest : String} (free : s.hasGraph dest = false)
    (found : s.graph source = .ok g) :
    Quiet (s.setGraph dest g) ((copyGraph source dest).after s) := by
  rw [copyGraph, after_bind_of_ok (checkNameFree_eq_ok.2 ⟨free, rfl⟩),
    after_bind_of_ok (graph_eq_ok.2 ⟨found, rfl⟩)]
  exact quiet_setGraph ((quiet_write _).bind (fun _ => quiet_log _ _) s) ..

theorem copyGraph_after (s : Session) (source dest : String) :
    Quiet s ((copyGraph source dest).after s) ∨ s.hasGraph dest = false ∧ ∃ g,
      s.graph source = .ok g ∧ Quiet (s.setGraph dest g) ((copyGraph source dest).after s) := by
  rcases (quiet_checkNameFree dest).after_bind s with failed | ⟨_, s₁, free, _, rest⟩
  · exact .inl failed
  · obtain ⟨free, rfl⟩ := checkNameFree_eq_ok.1 free
    cases found : s₁.graph source with
    | ok g => exact .inr ⟨free, g, rfl, copyGraph_of_free free found⟩
    | error f =>
      rw [copyGraph, rest]
      rcases (quiet_graph source).after_bind s₁ with failed | ⟨g, s₂, found', _⟩
      · exact .inl failed
      · rw [(graph_eq_ok.1 found').1] at found
        cases found

theorem removeGraph_after (s : Session) (name : String) : Quiet s ((removeGraph name).after s) ∨
    (name ≠ probedName ∧ name ≠ stagingName) ∧ (∃ g, s.graph name = .ok g) ∧
      Quiet { s with others := s.others.erase name } ((removeGraph name).after s) := by
  unfold removeGraph
  by_cases reserved : name = probedName ∨ name = stagingName
  · rw [if_pos reserved]
    exact .inl ⟨⟨rfl, rfl, rfl, rfl⟩, rfl⟩
  · rw [if_neg reserved]
    rcases (quiet_graph name).after_bind s with failed | ⟨g, s₁, found, _, rest⟩
    · exact .inl failed
    · obtain ⟨found, rfl⟩ := graph_eq_ok.1 found
      refine .inr ⟨not_or.1 reserved, ⟨g, found⟩, ?_⟩
      rw [rest]
      exact quiet_log _ _ _

theorem restoreGraph_after (s : Session) (name : String) : Quiet s ((restoreGraph name).after s) ∨
    ∃ g, s.graph name = .ok g ∧ Quiet { s with staging := g } ((restoreGraph name).after s) := by
  rcases (quiet_graph name).after_bind s with failed | ⟨g, s₁, found, _, rest⟩
  · exact .inl failed
  · obtain ⟨found, rfl⟩ := graph_eq_ok.1 found
    refine .inr ⟨g, found, ?_⟩
    rw [restoreGraph, rest]
    exact ⟨⟨rfl, rfl, rfl, rfl⟩, rfl⟩

theorem calculate_eq_ok {p : Plan} :
    calculate s = .ok p s' ↔ Plan.between s.probed s.staging = .ok p ∧
      s' = s.write (Plan.records s.probed s.staging) := by
  have state : (get : Command Session) s = .ok s s := rfl
  have written : ∀ records, write records s = .ok () (s.write records) := fun _ => rfl
  rw [calculate, bind_of_ok state, Step.within, mapFailure_eq_ok, planBetween,
    bind_of_ok (written _), lift_eq_ok]

/-- A commit takes the staged devicegraph, which passed its check, for real if it succeeds, and
changes nothing else. -/
theorem commit_spec (s : Session) (executor : Executor) :
    (∀ f, (s.commit executor).result = .error f → Quiet s (s.commit executor).session) ∧
    ((s.commit executor).result = .ok () → s.staging.check = .ok () ∧
      Quiet { s with probed := s.staging } (s.commit executor).session) := by
  unfold Session.commit
  by_cases readOnly : s.environment.readOnly = true
  · rw [if_pos readOnly]
    exact ⟨fun _ _ => Std.Refl.refl s, fun h => by cases h⟩
  · rw [if_neg readOnly]
    cases hp : calculate s with
    | error f s₁ => exact ⟨fun _ _ => after_of_error hp ▸ quiet_calculate s, fun h => by cases h⟩
    | ok p s₁ =>
      have quiet := quiet_calculate.of_ok hp
      obtain ⟨_, rhs, _, valid⟩ := Plan.of_between (calculate_eq_ok.1 hp).1
      simp only [carryOut]
      cases (p.execute s₁.environment.targetMode.root executor).2 with
      | error f =>
        exact ⟨fun _ _ => IsTrans.trans _ _ _ quiet (quiet_write _ s₁), fun h => by cases h⟩
      | ok _ =>
        exact ⟨fun f h => (by cases h),
          fun _ => ⟨valid, ⟨quiet.environment, rhs, quiet.staging, quiet.others⟩, quiet.supply⟩⟩

end Command

/-! ### Reading devicegraphs -/

theorem Devicegraph.Loaded.lawful {g : Devicegraph} (h : g.Loaded) : g.Lawful := by
  obtain ⟨text, s, s', _, done, rfl⟩ := h
  exact check_eq_ok.1 (Edit.check_of_loadText done)

namespace Session

/-- The devicegraph was read from a document, and its sids are reserved. -/
structure Fetched (s : Session) (g : Devicegraph) : Prop where
  loaded : g.Loaded
  range : ∀ {x}, g.contains x = true → x ≤ maxWord
  reserved : ∀ {x}, g.contains x = true → x < maxWord → x < s.supply.next

end Session

namespace Command

open Session Step

variable {s s' : Session} {name : String} {g : Devicegraph}

/-- Only sids are reserved, and what comes out was read from a document. -/
structure Fetches (x : Command Devicegraph) : Prop where
  reading : Keeps Reading x
  fetched : ∀ {s g s'}, x s = .ok g s' → s'.Fetched g

theorem Fetches.throw (f : Failure) : Fetches (throw f : Command Devicegraph) :=
  ⟨.throw f, fun h => by cases h⟩

theorem Fetches.mapFailure {x : Command Devicegraph} (h : Fetches x) (change : Failure → Failure) :
    Fetches (x.mapFailure change) :=
  ⟨h.reading.mapFailure, fun hx => h.fetched (mapFailure_eq_ok.1 hx)⟩

theorem Fetches.bind {α : Type} {x : Command α} {f : α → Command Devicegraph} (h : Keeps Quiet x)
    (hf : ∀ a, Fetches (f a)) : Fetches (x >>= f) := by
  refine ⟨(h.mono Quiet.reading).bind fun a => (hf a).reading, fun hx => ?_⟩
  obtain ⟨a, s', _, rest⟩ := bind_eq_ok.1 hx
  exact (hf a).fetched rest

theorem draft_eq_ok {e : Edit Unit} : draft e s = .ok g s' ↔
    ∃ e', e (s.editor .empty) = .ok () e' ∧ e'.graph = g ∧ s.adopt e' = s' := by
  unfold draft
  cases e (s.editor .empty) <;> simp

theorem draft_after (e : Edit Unit) : (draft e).after s = s.adopt (e.after (s.editor .empty)) := by
  cases he : e (s.editor .empty) <;> simp only [Step.after, draft, he]

/-- What reads a text into an empty devicegraph, whatever it says when it fails. -/
theorem fetches_draft {x : Edit Unit} {text : String} (raises : Keeps Edit.Raises x)
    (loads : ∀ {s s'}, x s = .ok () s' → Edit.loadText text s = .ok () s') : Fetches (draft x) := by
  refine ⟨fun s => ?_, fun {s g s'} h => ?_⟩
  · rw [draft_after]
    exact ⟨⟨rfl, rfl, rfl, rfl⟩, raises (s.editor .empty)⟩
  · obtain ⟨e, performed, rfl, rfl⟩ := draft_eq_ok.1 h
    have loaded := loads performed
    obtain ⟨d, hd, coherent, graph, supply⟩ := Edit.loadText_eq_ok rfl loaded
    have member : ∀ {x}, e.graph.contains x = true → ∃ c ∈ d.devices, c.sid = x := fun hx => by
      obtain ⟨c, hc⟩ := Devicegraph.contains_iff.1 hx
      rw [graph] at hc
      exact ⟨c, coherent.filled.find?_eq_some.1 hc⟩
    refine ⟨⟨text, _, e, rfl, loaded, rfl⟩, fun hx => ?_, fun hx more => ?_⟩
    · obtain ⟨c, hc, rfl⟩ := member hx
      exact Document.sid_le_of_ofText? hd c hc
    · obtain ⟨c, hc, rfl⟩ := member hx
      change c.sid < e.supply.next
      rw [supply]
      exact SidSupply.lt_reserveAll hc more

theorem fetches_loadText (text : String) : Fetches (draft (Edit.loadText text)) :=
  fetches_draft (Edit.raises_loadText text) id

theorem fetches_readGraph (path : String) : Fetches (readGraph path) := by
  refine .bind (quiet_log _ _) fun _ => .bind quiet_get fun s => ?_
  split
  · exact fetches_draft (Edit.raises_loadText _).mapFailure mapFailure_eq_ok.1
  · exact .throw _

theorem fetches_probeFile (headings : List String) (path : String) :
    Fetches (probeFile headings path) := (fetches_readGraph path).mapFailure _

theorem replaceGraph_eq_ok {read : Command Devicegraph} {n : Nat} :
    replaceGraph name read s = .ok n s' ↔ ∃ g s₁, name ≠ probedName ∧
      (∃ old, s.graph name = .ok old) ∧ read s = .ok g s₁ ∧ n = g.numDevices ∧
      s' = s₁.setGraph name g := by
  have state : (get : Command Session) s = .ok s s := rfl
  rw [replaceGraph, bind_of_ok state]
  simp only [bind_eq_ok, lift_eq_ok, graphForChange_eq_ok]
  constructor
  · rintro ⟨old, _, ⟨⟨free, found⟩, rfl⟩, g, s₁, hread, _, _, ⟨⟩, ⟨⟩⟩
    exact ⟨g, s₁, free, ⟨old, found⟩, hread, rfl, rfl⟩
  · rintro ⟨g, s₁, free, ⟨old, found⟩, hread, rfl, rfl⟩
    exact ⟨old, s, ⟨⟨free, found⟩, rfl⟩, g, s₁, hread, (), _, rfl, rfl⟩

theorem replaceGraph_after {read : Command Devicegraph} (fetches : Fetches read) (s : Session)
    (name : String) : Reading s ((replaceGraph name read).after s) ∨
      name ≠ probedName ∧ ∃ g s₁, Reading s s₁ ∧ s₁.Fetched g ∧
        (replaceGraph name read).after s = s₁.setGraph name g := by
  cases h : replaceGraph name read s with
  | ok n s' =>
    obtain ⟨g, s₁, free, _, hread, _, rfl⟩ := replaceGraph_eq_ok.1 h
    rw [after_of_ok h]
    exact .inr ⟨free, g, s₁, fetches.reading.of_ok hread, fetches.fetched hread, rfl⟩
  | error f s' =>
    rw [after_of_error h]
    have state : (get : Command Session) s = .ok s s := rfl
    rw [replaceGraph, bind_of_ok state] at h
    simp only [bind_eq_error (x := lift _), bind_eq_error (x := read)] at h
    rcases h with refused | ⟨old, s₁, found, failed | ⟨g, s₂, _, h⟩⟩
    · exact .inl ((quiet_lift _).of_error refused).reading
    · obtain ⟨_, rfl⟩ := lift_eq_ok.1 found
      exact .inl (fetches.reading.of_error failed)
    · cases h

end Command

/-! ### Probing -/

/-- What a prober finds is read from a document, which depends on the settings. -/
def Prober.Reads (prober : Prober) (s : Session) : Prop :=
  (∃ path, s.environment.probeMode = .readDevicegraph path) ∨
    s.environment.probeMode = .standard ∧ ∃ path, prober = .file path

namespace Command

open Session Step

variable {s s' : Session} {name : String} {g : Devicegraph} {prober : Prober}

theorem fetches_findDevices (reads : prober.Reads s) :
    Fetches (findDevices prober s.environment.probeMode) := by
  rcases reads with ⟨path, mode⟩ | ⟨mode, path, rfl⟩
  · rw [mode]
    exact fetches_probeFile _ path
  · rw [mode]
    exact fetches_probeFile [] path

/-- Where no document is read, nothing is found or what the prober has. -/
theorem quiet_findDevices (reads : ¬prober.Reads s) :
    Keeps Quiet (findDevices prober s.environment.probeMode) ∧
    ∀ {s₁ g s'}, findDevices prober s.environment.probeMode s₁ = .ok g s' →
      g = .empty ∨ s.environment.probeMode = .standard ∧ prober = .copying g := by
  cases mode : s.environment.probeMode with
  | none =>
    refine ⟨.pure _, fun h => ?_⟩
    cases h
    exact .inl rfl
  | readDevicegraph path => exact absurd (.inl ⟨path, mode⟩) reads
  | standard =>
    cases prober with
    | copying g =>
      refine ⟨(quiet_write _).bind fun _ => .pure g, fun h => ?_⟩
      obtain ⟨_, _, _, h⟩ := bind_eq_ok.1 h
      cases h
      exact .inr ⟨rfl, rfl⟩
    | failing causes => exact ⟨.throw _, fun h => by cases h⟩
    | file path => exact absurd (.inr ⟨mode, path, rfl⟩) reads

theorem quiet_checkProbed (g : Devicegraph) : Keeps Quiet (checkProbed g) :=
  (quiet_write _).bind fun _ => (quiet_lift _).mapFailure

theorem check_of_checkProbed (h : checkProbed g s = .ok () s') : g.check = .ok () := by
  obtain ⟨_, _, _, h⟩ := bind_eq_ok.1 h
  exact (lift_eq_ok.1 (mapFailure_eq_ok.1 h)).1

/-- Probing takes what is found for both devicegraphs if it passes its check, and changes nothing
else. -/
theorem probe_spec {R : Session → Session → Prop} [IsTrans Session R]
    (weaker : ∀ {s s'}, Quiet s s' → R s s') (s : Session)
    (finds : Keeps R (findDevices prober s.environment.probeMode)) :
    (∀ f s', probe prober s = .error f s' → R s s') ∧
    ∀ s', probe prober s = .ok () s' → ∃ g s₀ s₁,
      findDevices prober s.environment.probeMode s₀ = .ok g s₁ ∧ R s s₁ ∧ g.check = .ok () ∧
      Quiet { s₁ with probed := g, staging := g } s' := by
  let start : Session := s.write [⟨.info, "Probing storage"⟩]
  have begun : R s start := weaker (quiet_log _ _ s)
  have steps : probe prober s = (findDevices prober s.environment.probeMode >>= fun g =>
      checkProbed g >>= fun _ => log .debug s!"Probed {g.numDevices} devices" >>= fun _ =>
        write g.copyRecords >>= fun _ =>
          modify fun s => { s with probed := g, staging := g }) start := rfl
  rw [steps]
  refine ⟨fun f s' failed => ?_, fun s' done => ?_⟩
  · rcases bind_eq_error.1 failed with failed | ⟨g, s₁, found, failed⟩
    · exact IsTrans.trans _ _ _ begun (finds.of_error failed)
    · rcases bind_eq_error.1 failed with failed | ⟨_, s₂, _, failed⟩
      · have checked := weaker ((quiet_checkProbed g).of_error failed)
        exact IsTrans.trans _ _ _ begun (IsTrans.trans _ _ _ (finds.of_ok found) checked)
      · cases failed
  · obtain ⟨g, s₁, found, done⟩ := bind_eq_ok.1 done
    obtain ⟨_, s₂, checked, done⟩ := bind_eq_ok.1 done
    have quiet := (quiet_checkProbed g).of_ok checked
    refine ⟨g, start, s₁, found, IsTrans.trans _ _ _ begun (finds.of_ok found),
      check_of_checkProbed checked, ?_⟩
    cases done
    exact ⟨⟨quiet.environment, rfl, rfl, quiet.others⟩, quiet.supply⟩

end Command

end StoragePlan

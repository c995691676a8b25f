import StoragePlan.Proofs.Commands
import StoragePlan.Proofs.Outcomes

/-!
# Runs of a session

A session is used by one request after another (`Request`). Whatever the request and however it
ends, it does one of four things (`Request.effect`): a devicegraph is edited, devicegraphs are only
put in other places, a prober's devicegraph comes in, or one that was read. What is kept by each of
these holds after every run (`Session.Run`).
-/

namespace StoragePlan

/-! ### Which devicegraphs come in -/

namespace Session

variable {s s' : Session} {g h : Devicegraph} {name : String}

theorem Same.has (same : Same s s') (has : s'.Has g) : s.Has g := by
  obtain ⟨name, hn⟩ := has
  exact ⟨name, same.graph name ▸ hn⟩

theorem has_setGraph (free : name ≠ probedName) (has : (s.setGraph name g).Has h) :
    s.Has h ∨ h = g := by
  obtain ⟨other, hn⟩ := has
  rw [graph_setGraph free] at hn
  split at hn
  · exact .inr (Except.ok.inj hn).symm
  · exact .inl ⟨other, hn⟩

theorem supply_setGraph (s : Session) (name : String) (g : Devicegraph) :
    (s.setGraph name g).supply = s.supply := by
  unfold setGraph
  split <;> rfl

/-- A free name is none of the two that always exist. -/
theorem not_reserved (free : s.hasGraph name = false) : name ≠ probedName ∧ name ≠ stagingName := by
  simp only [hasGraph, Bool.or_eq_false_iff, beq_eq_false_iff_ne, ne_eq] at free
  exact free.1

theorem Fetched.congr (fetched : s.Fetched g) (supply : s'.supply = s.supply) : s'.Fetched g :=
  ⟨fetched.loaded, fetched.range, by rw [supply]; exact fetched.reserved⟩

theorem has_stage (has : { s with staging := g }.Has h) : s.Has h ∨ h = g :=
  has_setGraph (by decide : stagingName ≠ probedName) has

theorem has_takeForReal (has : { s with probed := g }.Has h) : s.Has h ∨ h = g := by
  obtain ⟨name, hn⟩ := has
  by_cases real : name = probedName
  · subst real
    exact .inr (Except.ok.inj hn).symm
  · refine .inl ⟨name, ?_⟩
    rw [← hn]
    simp [graph, real]

theorem has_remove (has : { s with others := s.others.erase name }.Has h) : s.Has h := by
  obtain ⟨other, hn⟩ := has
  refine ⟨other, ?_⟩
  unfold graph at hn ⊢
  split at hn
  · next real => rw [if_pos real, hn]
  · next free =>
    rw [if_neg free]
    split at hn
    · next staged => rw [if_pos staged, hn]
    · next own =>
      rw [if_neg own]
      simp only [Keyed.get?_erase] at hn
      split at hn
      · next found =>
        split at found
        · cases found
        · rw [found]
          exact hn
      · cases hn

end Session

/-! ### Requests -/

/-- Everything that a session is used for. The files can change from outside. -/
inductive Request where
  | edit (name : String) (op : Operation)
  | createGraph (name : String)
  | copyGraph (source dest : String)
  | removeGraph (name : String)
  | restoreGraph (name : String)
  | loadText (name text : String)
  | load (name path : String)
  | probe (prober : Prober)
  | commit (executor : Executor)
  | check (name : String)
  | plan (lhs rhs : String)
  | calculate
  | save (name path : String)
  | draw (name path : String)
  | drawPlan (lhs rhs path : String)
  | takeLog
  | changeFiles (files : Files)

namespace Request

open Command Session Step

variable {s : Session} {g : Devicegraph} {name : String}

/-- The session after a request, whether it succeeded or failed. -/
def after (s : Session) : Request → Session
  | edit name op => (Command.edit name op.perform).after s
  | createGraph name => (Command.createGraph name).after s
  | copyGraph source dest => (Command.copyGraph source dest).after s
  | removeGraph name => (Command.removeGraph name).after s
  | restoreGraph name => (Command.restoreGraph name).after s
  | loadText name text => (Command.loadText name text).after s
  | load name path => (Command.load name path).after s
  | probe prober => (Command.probe prober).after s
  | commit executor => (s.commit executor).session
  | check name => (Command.check name).after s
  | plan lhs rhs => (Command.plan lhs rhs).after s
  | calculate => Command.calculate.after s
  | save name path => (Command.save name path).after s
  | draw name path => (Command.draw name path).after s
  | drawPlan lhs rhs path => (Command.drawPlan lhs rhs path).after s
  | takeLog => Command.takeLog.after s
  | changeFiles files => { s with files }

/-- The sids that a request hands out. -/
def handed (s : Session) : Request → List Sid
  | edit name op =>
    match s.graphForChange name with
    | .ok g => op.handed (s.editor g)
    | .error _ => []
  | _ => []

/-- A document may be read on the request. -/
def Loads (s : Session) : Request → Prop
  | loadText .. | load .. => True
  | probe prober => prober.Reads s
  | _ => False

/-- What a request makes of the devicegraphs and of the supply of sids: each devicegraph afterwards
was there before or came in. -/
inductive Effect (s : Session) : Request → Session → Prop
  /-- A devicegraph was edited. -/
  | edited {name : String} {op : Operation} {g : Devicegraph} {s' : Session} (has : s.Has g)
    (has' : s'.Has (op.perform.after (s.editor g)).graph)
    (graphs : ∀ {h}, s'.Has h → s.Has h ∨ h = (op.perform.after (s.editor g)).graph)
    (supply : s'.supply = (op.perform.after (s.editor g)).supply)
    (handed : handed s (.edit name op) = op.handed (s.editor g)) : Effect s (.edit name op) s'
  /-- Devicegraphs were put in other places or dropped, or an empty one was added. -/
  | arranged {r : Request} {s' : Session} (graphs : ∀ {h}, s'.Has h → s.Has h ∨ h = .empty)
    (supply : s'.supply = s.supply) (handed : r.handed s = []) : Effect s r s'
  /-- The answer of a prober came in. -/
  | answered {g : Devicegraph} {s' : Session} (mode : s.environment.probeMode = .standard)
    (valid : g.check = .ok ()) (graphs : ∀ {h}, s'.Has h → s.Has h ∨ h = g)
    (supply : s'.supply = s.supply) : Effect s (.probe (.copying g)) s'
  /-- A document was read. -/
  | loaded {r : Request} {s' : Session} (loads : r.Loads s)
    (graphs : ∀ {h}, s'.Has h → s.Has h ∨ s'.Fetched h)
    (supply : s.supply.Raised s'.supply) (handed : r.handed s = []) : Effect s r s'

namespace Effect

variable {r : Request} {s' s'' : Session}

/-- Nothing happens to the devicegraphs. -/
theorem quiet (h : Quiet s s') (handed : r.handed s = []) : Effect s r s' :=
  .arranged (fun has => .inl (h.has has)) h.supply handed

/-- A change of the devicegraphs, and then nothing. -/
theorem arranged_quiet (h : Quiet s' s'') (graphs : ∀ {h}, s'.Has h → s.Has h ∨ h = .empty)
    (supply : s'.supply = s.supply) (handed : r.handed s = []) : Effect s r s'' :=
  .arranged (fun has => graphs (h.has has)) (h.supply.trans supply) handed

theorem loaded_reading (loads : r.Loads s) (h : Reading s s') (handed : r.handed s = []) :
    Effect s r s' := .loaded loads (fun has => .inl (h.has has)) h.supply handed

theorem of_edit (s : Session) (name : String) (op : Operation) :
    Effect s (.edit name op) ((Command.edit name op.perform).after s) := by
  cases hg : s.graphForChange name with
  | error f =>
    rw [edit_refused hg]
    exact .quiet (Std.Refl.refl s) (by rw [handed, hg])
  | ok g =>
    obtain ⟨free, found⟩ := graphForChange_eq_ok.1 hg
    rw [edit_after hg]
    exact .edited ⟨name, found⟩ ⟨name, by rw [graph_setGraph free, if_pos rfl]⟩ (has_setGraph free)
      (by rw [supply_setGraph]; rfl) (by rw [handed, hg])

theorem of_replaceGraph (loads : r.Loads s) (handed : r.handed s = []) {read : Command Devicegraph}
    (fetches : Fetches read) (name : String) : Effect s r ((replaceGraph name read).after s) := by
  rcases replaceGraph_after fetches s name with reading | ⟨free, g, s₁, reading, fetched, changed⟩
  · exact .loaded_reading loads reading handed
  · rw [changed]
    refine .loaded loads (fun has => ?_) (by rw [supply_setGraph]; exact reading.supply) handed
    rcases has_setGraph free has with old | rfl
    · exact .inl (reading.has old)
    · exact .inr (fetched.congr (supply_setGraph ..))

theorem of_probe (s : Session) (prober : Prober) :
    Effect s (.probe prober) ((Command.probe prober).after s) := by
  by_cases reads : prober.Reads s
  · have fetches := fetches_findDevices reads
    obtain ⟨failed, done⟩ := probe_spec Quiet.reading s fetches.reading
    cases h : Command.probe prober s with
    | error f s' => exact .loaded_reading reads (after_of_error h ▸ failed f s' h) rfl
    | ok _ s' =>
      obtain ⟨g, _, s₁, found, reading, _, taken⟩ := done s' h
      rw [after_of_ok h]
      refine .loaded reads (fun has => ?_) (taken.supply ▸ reading.supply) rfl
      rcases has_stage (s := { s₁ with probed := g }) (taken.has has) with old | rfl
      · rcases has_takeForReal old with old | rfl
        · exact .inl (reading.has old)
        · exact .inr ((fetches.fetched found).congr taken.supply)
      · exact .inr ((fetches.fetched found).congr taken.supply)
  · obtain ⟨keeps, answer⟩ := quiet_findDevices reads
    obtain ⟨failed, done⟩ := probe_spec id s keeps
    cases h : Command.probe prober s with
    | error f s' => exact .quiet (after_of_error h ▸ failed f s' h) rfl
    | ok _ s' =>
      obtain ⟨g, _, s₁, found, quiet, valid, taken⟩ := done s' h
      have graphs : ∀ {h}, s'.Has h → s.Has h ∨ h = g := fun has => by
        rcases has_stage (s := { s₁ with probed := g }) (taken.has has) with old | rfl
        · rcases has_takeForReal old with old | rfl
          · exact .inl (quiet.has old)
          · exact .inr rfl
        · exact .inr rfl
      have supply := taken.supply.trans quiet.supply
      rw [after_of_ok h]
      rcases answer found with rfl | ⟨mode, rfl⟩
      · exact .arranged graphs supply rfl
      · exact .answered mode valid graphs supply

theorem of_commit (s : Session) (executor : Executor) :
    Effect s (.commit executor) (s.commit executor).session := by
  obtain ⟨failed, done⟩ := commit_spec s executor
  cases h : (s.commit executor).result with
  | error f => exact .quiet (failed f h) rfl
  | ok _ =>
    refine .arranged_quiet (done h).2 (fun has => ?_) rfl rfl
    rcases has_takeForReal has with old | rfl
    · exact .inl old
    · exact .inl ⟨stagingName, rfl⟩

end Effect

/-- What a request does, whether it succeeds or fails. -/
theorem effect (s : Session) (r : Request) : Effect s r (r.after s) := by
  cases r with
  | edit name op => exact .of_edit s name op
  | createGraph name =>
    rcases createGraph_after s name with quiet | ⟨free, created⟩
    · exact .quiet quiet rfl
    · exact .arranged_quiet created (has_setGraph (not_reserved free).1) (supply_setGraph ..) rfl
  | copyGraph source dest =>
    rcases copyGraph_after s source dest with quiet | ⟨free, g, found, copied⟩
    · exact .quiet quiet rfl
    · refine .arranged_quiet copied (fun has => ?_) (supply_setGraph ..) rfl
      rcases has_setGraph (not_reserved free).1 has with old | rfl
      · exact .inl old
      · exact .inl ⟨source, found⟩
  | removeGraph name =>
    rcases removeGraph_after s name with quiet | ⟨_, _, removed⟩
    · exact .quiet quiet rfl
    · exact .arranged_quiet removed (fun has => .inl (has_remove has)) rfl rfl
  | restoreGraph name =>
    rcases restoreGraph_after s name with quiet | ⟨g, found, restored⟩
    · exact .quiet quiet rfl
    · refine .arranged_quiet restored (fun has => ?_) rfl rfl
      rcases has_stage has with old | rfl
      · exact .inl old
      · exact .inl ⟨name, found⟩
  | loadText name text =>
    exact .of_replaceGraph (r := .loadText name text) trivial rfl (fetches_loadText text) name
  | load name path =>
    exact .of_replaceGraph (r := .load name path) trivial rfl (fetches_readGraph path) name
  | probe prober => exact .of_probe s prober
  | commit executor => exact .of_commit s executor
  | check name => exact .quiet (quiet_check name s) rfl
  | plan lhs rhs => exact .quiet (quiet_plan lhs rhs s) rfl
  | calculate => exact .quiet (quiet_calculate s) rfl
  | save name path => exact .quiet (quiet_save name path s) rfl
  | draw name path => exact .quiet (quiet_draw name path s) rfl
  | drawPlan lhs rhs path => exact .quiet (quiet_drawPlan lhs rhs path s) rfl
  | takeLog => exact .quiet (quiet_takeLog s) rfl
  | changeFiles files => exact .quiet ⟨⟨rfl, rfl, rfl, rfl⟩, rfl⟩ rfl

end Request

/-! ### Runs -/

namespace Session

/-- A session can be in this state after requests, each allowed when it was made, that handed out
these sids, the latest first. -/
inductive Run (allowed : Session → Request → Prop) : List Sid → Session → Prop
  | start (environment : Environment) (files : Files) : Run allowed [] { environment, files }
  | step {handed : List Sid} {s : Session} (run : Run allowed handed s) (r : Request)
    (fine : allowed s r) : Run allowed (r.handed s ++ handed) (r.after s)

theorem Run.mono {allowed wider : Session → Request → Prop} {handed : List Sid} {s : Session}
    (run : Run allowed handed s) (h : ∀ s r, allowed s r → wider s r) : Run wider handed s := by
  induction run with
  | start environment files => exact .start environment files
  | step _ r fine ih => exact ih.step r (h _ r fine)

/-- A session begins with empty devicegraphs. -/
theorem eq_empty_of_has_start {environment : Environment} {files : Files} {g : Devicegraph}
    (has : Session.Has { environment, files } g) : g = .empty := by
  obtain ⟨name, hn⟩ := has
  unfold graph at hn
  split at hn
  · exact (Except.ok.inj hn).symm
  · split at hn
    · exact (Except.ok.inj hn).symm
    · cases hn

end Session

end StoragePlan

import StoragePlan.Proofs.Committing
import StoragePlan.Proofs.Correlation

/-!
# The baseline of a session

A request is addressed to one devicegraph, to the two that probing renews or to none
(`Request.touched`), and every other devicegraph is the same afterwards (`Request.untouched`). What
comes in as `probed` passed its check, by a probe or by a commit that succeeds (`Request.renewal`),
and one that fails changes no devicegraph (`Request.same_of_fails`). So `probed` passes its check
after every run, whatever becomes of the other devicegraphs.
-/

namespace StoragePlan

/-! ### Changes of some devicegraphs -/

theorem Keyed.of_mem_insert {α : Type} {key : String} {value : α} {values : Keyed α}
    {entry : String × α} (h : entry ∈ values.insert key value) :
    entry = (key, value) ∨ entry ∈ values := by
  induction values with
  | nil => exact .inl (List.mem_singleton.1 h)
  | cons first rest ih =>
    obtain ⟨k, v⟩ := first
    unfold insert at h
    grind

namespace Session

variable {s s' s'' : Session} {g : Devicegraph} {name : String} {names : List String}

/-- The caller has no devicegraph under a name of those that always exist. -/
def Unshadowed (s : Session) : Prop :=
  ∀ entry ∈ s.others, entry.1 ≠ probedName ∧ entry.1 ≠ stagingName

/-- Only devicegraphs with some names may have changed, and no name of those that always exist was
added. -/
structure Outside (names : List String) (s s' : Session) : Prop where
  graph : ∀ name ∉ names, s'.graph name = s.graph name
  unshadowed : s.Unshadowed → s'.Unshadowed

theorem Same.outside (h : Same s s') : Outside names s s' :=
  ⟨fun name _ => h.graph name, fun own => by rwa [Unshadowed, h.others]⟩

theorem Outside.trans (h : Outside names s s') (h' : Outside names s' s'') :
    Outside names s s'' :=
  ⟨fun name out => (h'.graph name out).trans (h.graph name out), h'.unshadowed ∘ h.unshadowed⟩

theorem Outside.mono {more : List String} (h : Outside names s s') (sub : names ⊆ more) :
    Outside more s s' := ⟨fun name out => h.graph name fun mem => out (sub mem), h.unshadowed⟩

theorem outside_setGraph (free : name ≠ probedName) (g : Devicegraph) :
    Outside [name] s (s.setGraph name g) := by
  refine ⟨fun other out => ?_, fun own entry member => ?_⟩
  · rw [graph_setGraph free, if_neg (by simpa using out)]
  · unfold setGraph at member
    split at member
    · exact own entry member
    · next free' =>
      rcases Keyed.of_mem_insert member with rfl | member
      · exact ⟨free, free'⟩
      · exact own entry member

theorem outside_stage (s : Session) (g : Devicegraph) :
    Outside [stagingName] s { s with staging := g } :=
  outside_setGraph (by decide : stagingName ≠ probedName) g

theorem outside_takeForReal (g : Devicegraph) : Outside [probedName] s { s with probed := g } := by
  refine ⟨fun name out => ?_, id⟩
  have other : name ≠ probedName := by simpa using out
  simp [graph, other]

theorem outside_remove (s : Session) (name : String) :
    Outside [name] s { s with others := s.others.erase name } := by
  refine ⟨fun other out => ?_, fun own entry member => own entry (List.mem_of_mem_filter member)⟩
  have other : other ≠ name := by simpa using out
  simp [graph, Keyed.get?_erase, other]

end Session

/-! ### Requests -/

namespace Request

open Command Session Step

variable {s : Session} {r : Request} {name : String}

/-- The devicegraphs that a request is addressed to. -/
def touched : Request → List String
  | edit name _ | createGraph name | copyGraph _ name | removeGraph name => [name]
  | loadText name _ | load name _ => [name]
  | restoreGraph _ => [stagingName]
  | probe _ => [probedName, stagingName]
  | commit _ => [probedName]
  | _ => []

/-- A probe or a commit succeeds. -/
def Renews (s : Session) : Request → Prop
  | probe prober => ∃ s', Command.probe prober s = .ok () s'
  | commit executor => (s.commit executor).result = .ok ()
  | _ => False

/-- A probe or a commit fails. -/
def Fails (s : Session) : Request → Prop
  | probe prober => ∃ f s', Command.probe prober s = .error f s'
  | commit executor => ∃ f, (s.commit executor).result = .error f
  | _ => False

theorem reading_findDevices (prober : Prober) (s : Session) :
    Keeps Reading (findDevices prober s.environment.probeMode) := by
  by_cases reads : prober.Reads s
  · exact (fetches_findDevices reads).reading
  · exact (quiet_findDevices reads).1.mono Quiet.reading

/-- What a request does to the devicegraphs: nothing, or it changes one that is not `probed`, or it
renews `probed`. -/
inductive Shift (s : Session) (r : Request) (s' : Session) : Prop
  | same (h : Same s s')
  | changed {name : String} (addressed : name ∈ r.touched) (free : name ≠ probedName)
    (h : Outside [name] s s')
  | renewed (renews : r.Renews s) (valid : s'.probed.check = .ok ()) (h : Outside r.touched s s')

theorem Shift.of_replaceGraph (addressed : name ∈ r.touched) {read : Command Devicegraph}
    (fetches : Fetches read) : Shift s r ((replaceGraph name read).after s) := by
  rcases replaceGraph_after fetches s name with reading | ⟨free, g, s', reading, _, changed⟩
  · exact .same reading.toSame
  · rw [changed]
    exact .changed addressed free (reading.outside.trans (outside_setGraph free g))

theorem Shift.of_probe (s : Session) (prober : Prober) :
    Shift s (.probe prober) ((Command.probe prober).after s) := by
  obtain ⟨failed, done⟩ := probe_spec Quiet.reading s (reading_findDevices prober s)
  cases h : Command.probe prober s with
  | error f s' => exact .same (after_of_error h ▸ failed f s' h).toSame
  | ok _ s' =>
    obtain ⟨g, _, s₁, _, reading, valid, taken⟩ := done s' h
    have real := outside_takeForReal (s := s₁) g
    have staged := outside_stage { s₁ with probed := g } g
    rw [after_of_ok h]
    exact .renewed ⟨s', h⟩ (by rwa [taken.probed])
      (reading.outside.trans <| (real.mono (by simp [touched])).trans <|
        (staged.mono (by simp [touched])).trans taken.outside)

theorem Shift.of_commit (s : Session) (executor : Executor) :
    Shift s (.commit executor) (s.commit executor).session := by
  obtain ⟨failed, done⟩ := commit_spec s executor
  cases h : (s.commit executor).result with
  | error f => exact .same (failed f h).toSame
  | ok _ =>
    obtain ⟨valid, taken⟩ := done h
    exact .renewed h (by rwa [taken.probed]) ((outside_takeForReal _).trans taken.outside)

theorem shift (s : Session) (r : Request) : Shift s r (r.after s) := by
  cases r with
  | edit name op =>
    cases hg : s.graphForChange name with
    | error f =>
      rw [Request.after, edit_refused hg]
      exact .same ⟨rfl, rfl, rfl, rfl⟩
    | ok g =>
      have free := (graphForChange_eq_ok.1 hg).1
      have same : Same s (s.adopt (op.perform.after (s.editor g))) := ⟨rfl, rfl, rfl, rfl⟩
      rw [Request.after, edit_after hg]
      exact .changed (by simp [touched]) free (same.outside.trans (outside_setGraph free _))
  | createGraph name =>
    rcases createGraph_after s name with quiet | ⟨free, created⟩
    · exact .same quiet.toSame
    · have own := not_reserved free
      exact .changed (by simp [touched]) own.1 ((outside_setGraph own.1 _).trans created.outside)
  | copyGraph source dest =>
    rcases copyGraph_after s source dest with quiet | ⟨free, g, _, copied⟩
    · exact .same quiet.toSame
    · have own := not_reserved free
      exact .changed (by simp [touched]) own.1 ((outside_setGraph own.1 g).trans copied.outside)
  | removeGraph name =>
    rcases removeGraph_after s name with quiet | ⟨own, _, removed⟩
    · exact .same quiet.toSame
    · exact .changed (by simp [touched]) own.1 ((outside_remove s name).trans removed.outside)
  | restoreGraph name =>
    rcases restoreGraph_after s name with quiet | ⟨g, _, restored⟩
    · exact .same quiet.toSame
    · exact .changed (by simp [touched]) (by decide) ((outside_stage s g).trans restored.outside)
  | loadText name text => exact .of_replaceGraph (by simp [touched]) (fetches_loadText text)
  | load name path => exact .of_replaceGraph (by simp [touched]) (fetches_readGraph path)
  | probe prober => exact .of_probe s prober
  | commit executor => exact .of_commit s executor
  | check name => exact .same (quiet_check name s).toSame
  | plan lhs rhs => exact .same (quiet_plan lhs rhs s).toSame
  | calculate => exact .same (quiet_calculate s).toSame
  | save name path => exact .same (quiet_save name path s).toSame
  | draw name path => exact .same (quiet_draw name path s).toSame
  | drawPlan lhs rhs path => exact .same (quiet_drawPlan lhs rhs path s).toSame
  | takeLog => exact .same (quiet_takeLog s).toSame
  | changeFiles files => exact .same ⟨rfl, rfl, rfl, rfl⟩

/-- Every devicegraph that a request is not addressed to is the same afterwards. -/
theorem untouched (s : Session) (r : Request) : Outside r.touched s (r.after s) := by
  cases shift s r with
  | same h => exact h.outside
  | changed addressed _ h => exact h.mono (by simpa using addressed)
  | renewed _ _ h => exact h

/-- Only a probe or a commit that succeeds renews `probed`, with what passed its check. -/
theorem renewal (s : Session) (r : Request) :
    (r.after s).probed = s.probed ∨ r.Renews s ∧ (r.after s).probed.check = .ok () := by
  cases shift s r with
  | same h => exact .inl h.probed
  | changed _ free h => exact .inl (Except.ok.inj (h.graph probedName (by simpa using free.symm)))
  | renewed renews valid _ => exact .inr ⟨renews, valid⟩

/-- A probe or a commit that fails changes no devicegraph. -/
theorem same_of_fails (fails : r.Fails s) : Same s (r.after s) := by
  cases r with
  | probe prober =>
    obtain ⟨f, s', h⟩ := fails
    obtain ⟨failed, _⟩ := probe_spec Quiet.reading s (reading_findDevices prober s)
    exact (after_of_error h ▸ failed f s' h).toSame
  | commit executor =>
    obtain ⟨f, h⟩ := fails
    exact ((commit_spec s executor).1 f h).toSame
  | _ => cases fails

end Request

/-! ### Runs -/

namespace Session

variable {s : Session} {handed : List Sid}

/-- After every run `probed` passes its check, and no devicegraph of the caller hides `probed` or
`staging`. -/
theorem Run.baseline {allowed : Session → Request → Prop} (run : Run allowed handed s) :
    s.probed.check = .ok () ∧ s.Unshadowed := by
  induction run with
  | start =>
    exact ⟨Devicegraph.check_eq_ok.2 Devicegraph.lawful_empty, fun _ member => by cases member⟩
  | step run r _ ih =>
    refine ⟨?_, (Request.untouched _ r).unshadowed ih.2⟩
    rcases Request.renewal _ r with same | ⟨_, valid⟩
    · rw [same]
      exact ih.1
    · exact valid

/-- The baseline of a session is valid and isolated at every moment, whatever was requested so far
and whatever is requested next. -/
theorem baseline_isolated (run : Run (fun _ _ => True) handed s) :
    s.probed.check = .ok () ∧
    (∀ entry ∈ s.others, entry.1 ≠ probedName ∧ entry.1 ≠ stagingName) ∧
    ∀ r : Request,
      (∀ name ∉ r.touched, (r.after s).graph name = s.graph name) ∧
      ((r.after s).probed ≠ s.probed → r.Renews s) ∧
      (r.Fails s → ∀ name, (r.after s).graph name = s.graph name) := by
  refine ⟨run.baseline.1, run.baseline.2, fun r => ⟨(r.untouched s).graph, fun changed => ?_,
    fun fails => (Request.same_of_fails fails).graph⟩⟩
  rcases Request.renewal s r with same | ⟨renews, _⟩
  · exact absurd same changed
  · exact renews

/-- A disk that is created and committed. -/
theorem baseline_isolated_disk : ∃ s, Run (fun _ _ => True) [42] s ∧ s.probed.numDevices = 1 ∧
    s.probed.check = .ok () := by
  let g : Devicegraph := Creation.unchecked 42 .empty (.disk "a" 1048576)
  let executor : Executor := fun _ _ => .ok ()
  obtain ⟨s, run, staged, _, environment, _⟩ :=
    Run.create (.start {} {}) (g := .empty) rfl (.disk "a" 1048576) (by cbv) rfl (by decide)
  have anyRun : Run (fun _ _ => True) [42] s := run.mono fun _ _ _ => trivial
  have staging : s.staging = g := Except.ok.inj staged
  have valid : s.staging.check = .ok () := by
    rw [staging]
    cbv
  obtain ⟨p, _, _, planned, _, _, realizes⟩ := Plan.between_spec anyRun.baseline.1 valid
  have committed : Succeeded s p (s.commit executor) :=
    commit_of_carriesOut (by rw [environment]) planned realizes.actions_perm fun _ _ _ _ => rfl
  have next : Run (fun _ _ => True) [42] (s.commit executor).session :=
    anyRun.step (.commit executor) trivial
  refine ⟨_, next, ?_, (baseline_isolated next).1⟩
  rw [committed.quiet.probed, staging]
  cbv

end Session

end StoragePlan

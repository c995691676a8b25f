import StoragePlan.Proofs.Sessions

/-!
# Fresh sids

Every device that is created gets a sid that no device of the session has and that was not handed
out before, whatever was done before, created or loaded (`Session.sid_fresh`). The counter knows one
sid too few, though: a document with the last sid of all cannot raise it beyond that sid, so that
the next device takes it over, and after the last sid the counter starts again from 0. A run is
`Spared` where no device gets the last sid.
-/

namespace StoragePlan

open Edit

namespace Devicegraph

variable {g g' : Devicegraph} {d : Device} {parent? : Option Sid}

theorem nodup_devices (g : Devicegraph) : g.devices.Nodup :=
  (devices_ascending g).imp fun lt same => Nat.ne_of_lt lt (congrArg Device.sid same)

/-- There is one more device. -/
theorem Grown.numDevices (h : Grown g g' d parent?) : g'.numDevices = g.numDevices + 1 := by
  have new : d ∉ g.devices := fun member => h.ne_of_found (mem_devices.1 member) rfl
  have perm : g'.devices.Perm (d :: g.devices) := by
    refine (List.perm_ext_iff_of_nodup g'.nodup_devices
      (List.nodup_cons.2 ⟨new, g.nodup_devices⟩)).2 fun c => ?_
    rw [mem_devices, List.mem_cons, mem_devices, h.find?]
    split
    · next same =>
      simp only [Option.some.injEq, same, h.fresh, reduceCtorEq, or_false]
      exact eq_comm
    · next other =>
      refine (or_iff_right fun same => ?_).symm
      exact other (congrArg Device.sid same)
  rw [Devicegraph.numDevices, perm.length_eq]
  rfl

end Devicegraph

namespace Session

variable {s s' : Session} {handed : List Sid} {g : Devicegraph} {name : String}

/-- A prober answers with devices whose sids are taken, and no device gets the last sid of all. -/
structure Spared (s : Session) (r : Request) : Prop where
  taken : ∀ {g}, r = .probe (.copying g) → ∀ {x}, g.contains x = true → x < s.supply.next
  last : ∀ {g}, (r.after s).Has g → g.contains maxWord = false

/-- All sids in use were taken out of the supply, and it did not start again. -/
structure Allotted (s : Session) (handed : List Sid) : Prop where
  lawful : ∀ {g}, s.Has g → g.Lawful
  below : ∀ {g x}, s.Has g → g.contains x = true → x < s.supply.next
  used : ∀ x ∈ handed, x < s.supply.next
  bound : s.supply.next ≤ maxWord

namespace Allotted

theorem start (environment : Environment) (files : Files) : Allotted { environment, files } [] := by
  refine ⟨fun has => ?_, fun has contains => ?_, fun x hx => ?_, ?_⟩
  · exact eq_empty_of_has_start has ▸ Devicegraph.lawful_empty
  · rw [eq_empty_of_has_start has] at contains
    cases contains
  · cases hx
  · exact (by decide : 42 ≤ maxWord)

/-- The next sid is free. -/
theorem next_free (h : Allotted s handed) (has : s.Has g) : g.contains s.supply.next = false :=
  Bool.eq_false_iff.2 fun contains => Nat.lt_irrefl _ (h.below has contains)

/-- An edit keeps sids allotted. -/
theorem edited (h : Allotted s handed) (has : s.Has g) (op : Operation)
    (has' : s'.Has (op.perform.after (s.editor g)).graph)
    (graphs : ∀ {h}, s'.Has h → s.Has h ∨ h = (op.perform.after (s.editor g)).graph)
    (supply : s'.supply = (op.perform.after (s.editor g)).supply)
    (last : ∀ {g}, s'.Has g → g.contains maxWord = false) :
    Allotted s' (op.handed (s.editor g) ++ handed) := by
  have law := h.lawful has
  have out := op.outcome (s := s.editor g) law
  have law' := op.lawful_after (s := s.editor g) law fun _ => h.next_free has
  obtain ⟨le, bound, new⟩ : s.supply.next ≤ s'.supply.next ∧ s'.supply.next ≤ maxWord ∧
      ∀ x ∈ op.handed (s.editor g), x < s'.supply.next := by
    rw [supply]
    rcases out.supply with ⟨none, same⟩ | ⟨one, advanced, used⟩
    · rw [none, same]
      exact ⟨Nat.le_refl _, h.bound, fun x hx => by cases hx⟩
    · have more : s.supply.next < maxWord := by
        refine Nat.lt_of_le_of_ne h.bound fun isLast => ?_
        have unused := last has'
        rw [← isLast] at unused
        exact Bool.false_ne_true (unused.symm.trans used)
      have up : s.supply.advance.next = s.supply.next + 1 := if_pos more
      rw [one, advanced, show (s.editor g).supply = s.supply from rfl, up]
      refine ⟨Nat.le_succ _, more, fun x hx => ?_⟩
      rw [List.mem_singleton.1 hx]
      exact Nat.lt_succ_self _
  refine ⟨fun has => ?_, fun {k x} has contains => ?_, fun x hx => ?_, bound⟩
  · rcases graphs has with old | rfl
    · exact h.lawful old
    · exact law'
  · rcases graphs has with old | rfl
    · exact Nat.lt_of_lt_of_le (h.below old contains) le
    · rcases out.contains contains with old | ⟨_, one, _⟩
      · exact Nat.lt_of_lt_of_le (h.below ‹_› old) le
      · exact new x (by rw [one]; exact List.mem_singleton_self x)
  · rcases List.mem_append.1 hx with hx | hx
    · exact new x hx
    · exact Nat.lt_of_lt_of_le (h.used x hx) le

/-- Devicegraphs that come in with sids that are taken keep sids allotted. -/
theorem enlarged (h : Allotted s handed) (incoming : ∀ {g}, s'.Has g → s.Has g ∨
      g.Lawful ∧ ∀ {x}, g.contains x = true → x < s'.supply.next)
    (raised : s.supply.Raised s'.supply) : Allotted s' handed := by
  refine ⟨fun has => ?_, fun has contains => ?_, fun x hx => ?_, ?_⟩
  · rcases incoming has with old | ⟨law, _⟩
    · exact h.lawful old
    · exact law
  · rcases incoming has with old | ⟨_, taken⟩
    · exact Nat.lt_of_lt_of_le (h.below old contains) raised.le
    · exact taken contains
  · exact Nat.lt_of_lt_of_le (h.used x hx) raised.le
  · exact Nat.le_trans raised.bound (Nat.max_le.2 ⟨h.bound, Nat.le_refl _⟩)

/-- Every request keeps sids allotted. -/
theorem step (h : Allotted s handed) {r : Request} (spared : Spared s r) :
    Allotted (r.after s) (r.handed s ++ handed) := by
  obtain ⟨taken, last⟩ := spared
  have effect := r.effect s
  generalize r.after s = s' at effect last
  cases effect with
  | edited has has' graphs supply handed =>
    rw [handed]
    exact h.edited has _ has' graphs supply last
  | arranged graphs supply none =>
    rw [none]
    refine h.enlarged (fun has => (graphs has).imp_right ?_) (supply ▸ .refl s.supply)
    rintro rfl
    exact ⟨Devicegraph.lawful_empty, fun contains => by cases contains⟩
  | answered mode valid graphs supply =>
    refine h.enlarged (fun has => (graphs has).imp_right ?_) (supply ▸ .refl s.supply)
    rintro rfl
    exact ⟨Devicegraph.check_eq_ok.1 valid, fun contains => supply ▸ taken rfl contains⟩
  | loaded loads graphs supply none =>
    rw [none]
    refine h.enlarged (fun has => (graphs has).imp_right fun fetched => ?_) supply
    refine ⟨fetched.loaded.lawful, fun contains => ?_⟩
    refine fetched.reserved contains (Nat.lt_of_le_of_ne (fetched.range contains) fun isLast => ?_)
    rw [isLast] at contains
    exact Bool.false_ne_true ((last has).symm.trans contains)

theorem of_run (run : Run Spared handed s) : Allotted s handed := by
  induction run with
  | start environment files => exact .start environment files
  | step _ r spared ih => exact ih.step spared

end Allotted

/-- The sid of a new device is one that no device has and that was not handed out before. So there
is one device more, and those that were there are as before. -/
theorem sid_fresh (run : Run Spared handed s) {c : Creation} {sid : Sid}
    (created : Command.edit name c.perform s = .ok sid s') :
    sid ∉ handed ∧ (∀ g, s.Has g → g.contains sid = false) ∧
    (∀ other, other ≠ name → s'.graph other = s.graph other) ∧
    ∃ g g', s.graph name = .ok g ∧ s'.graph name = .ok g' ∧ g'.numDevices = g.numDevices + 1 ∧
      g'.find? sid = some { sid, attributes := c.attributes } ∧
      ∀ x d, g.find? x = some d → g'.find? x = some d := by
  have allotted := Allotted.of_run run
  obtain ⟨g, e, found, performed, rfl⟩ := Command.edit_eq_ok.1 created
  obtain ⟨free, found⟩ := graphForChange_eq_ok.1 found
  obtain ⟨accepted, sid_eq, graph, _⟩ := (c.checksFirst (s.editor g)).of_ok performed
  obtain rfl : sid = s.supply.next := sid_eq
  have fresh : g.find? s.supply.next = none :=
    Devicegraph.contains_eq_false.1 (allotted.next_free ⟨name, found⟩)
  have grown : Devicegraph.Grown g e.graph ((s.editor g).newDevice c.attributes) c.parent? := by
    rw [graph]
    exact Devicegraph.grown_place (allotted.lawful ⟨name, found⟩).whole fresh
      (Creation.found_of_accepted accepted) c.rooted
  refine ⟨fun again => Nat.lt_irrefl _ (allotted.used _ again),
    fun h has => allotted.next_free has, fun other ne => ?_, g, e.graph, found, ?_,
    grown.numDevices, grown.find?_new, fun x d hd => ?_⟩
  · rw [graph_setGraph free, if_neg ne]
    rfl
  · rw [graph_setGraph free, if_pos rfl]
  · rw [grown.find?_old (grown.ne_of_found hd), hd]

end Session

/-! ### The last sids -/

namespace Document

/-- A disk with a sid. -/
def lone (sid : Sid) : Document := ⟨[⟨sid, .disk { name := "a" }, []⟩], []⟩

/-- The characters of a text for it. -/
def loneChars (sid : String) : List Char :=
  List.flatMap String.toList ["devices:\n- sid: ", sid, "\n  kind: disk\n  name: a\n"]

set_option maxRecDepth 100000 in
theorem ofText?_last :
    ofText? (String.ofList (loneChars "18446744073709551615")) = some (lone maxWord) := by
  rw [ofText?, Yaml.Tree.ofText?, Yaml.Written.ofText?, Yaml.Token.ofText?, String.toList_ofList]
  decide +kernel

set_option maxRecDepth 100000 in
theorem ofText?_lastButOne :
    ofText? (String.ofList (loneChars "18446744073709551614")) = some (lone (maxWord - 1)) := by
  rw [ofText?, Yaml.Tree.ofText?, Yaml.Written.ofText?, Yaml.Token.ofText?, String.toList_ofList]
  decide +kernel

end Document

namespace Session

open Document

/-- A document that is accepted is staged, and its sids are reserved. -/
theorem loadText_after {text : String} {d : Document} (h : ofText? text = some d)
    (coherent : d.Coherent) (valid : d.graph.check = .ok ()) : ∃ s',
      Request.after {} (.loadText stagingName text) = s' ∧ s'.graph stagingName = .ok d.graph ∧
      s'.supply = SidSupply.reserveAll {} d.devices ∧ ∀ g, s'.Has g → g = .empty ∨ g = d.graph := by
  let s : Session := {}
  obtain ⟨possible, effect⟩ := load_spec d (s := s.editor .empty) rfl
  obtain ⟨e, loaded⟩ := possible.2 ⟨coherent, valid⟩
  obtain ⟨graph, supply⟩ := effect e loaded
  rw [← loadText_of_ofText? h] at loaded
  have drafted := Command.draft_eq_ok.2 ⟨e, loaded, graph, rfl⟩
  have done : Command.loadText stagingName text s = .ok _ _ :=
    Command.replaceGraph_eq_ok.2 ⟨_, _, by decide, ⟨_, rfl⟩, drafted, rfl, rfl⟩
  refine ⟨_, Step.after_of_ok done, ?_, supply, fun g has => ?_⟩
  · rw [graph_setGraph (by decide), if_pos rfl]
  · refine (has_setGraph (by decide) has).imp_left fun old => ?_
    have same : Same s (s.adopt e) := ⟨rfl, rfl, rfl, rfl⟩
    exact eq_empty_of_has_start (same.has old)

/-- A disk is created in a devicegraph where its name is unused. -/
theorem createDisk_spec {s : Session} {g : Devicegraph} (hg : s.graph stagingName = .ok g)
    (name : String) (unused : g.checkNameUnused name none = .ok ()) : ∃ s',
      Command.edit stagingName (Creation.perform (.disk name 0)) s = .ok s.supply.next s' ∧
      s'.graph stagingName = .ok (g.addDevice ⟨s.supply.next, .disk { name, sizeK := 0 }, []⟩) := by
  obtain ⟨sid, e, performed, created⟩ :=
    (Creation.checksFirst (.disk name 0) (s.editor g)).accepted unused
  obtain rfl : sid = s.supply.next := created.sid
  have changes := graphForChange_eq_ok.2 ⟨by decide, hg⟩
  refine ⟨_, Command.edit_eq_ok.2 ⟨g, e, changes, performed, rfl⟩, ?_⟩
  rw [graph_setGraph (by decide), if_pos rfl, created.graph]
  rfl

/-- After the last sid but one was loaded, the last one is handed out. -/
theorem sid_fresh_last : ∃ s s' : Session, Run Spared [] s ∧
    Command.edit stagingName (Creation.perform (.disk "b" 0)) s = .ok maxWord s' ∧
    ∀ g, s.Has g → g.contains maxWord = false := by
  have valid : (lone (maxWord - 1)).graph.check = .ok () := by cbv
  obtain ⟨s, after, staged, supply, graphs⟩ :=
    loadText_after ofText?_lastButOne ⟨by decide, by decide, by decide⟩ valid
  have next : s.supply.next = maxWord := by
    rw [supply]
    decide
  have run : Run Spared [] s := by
    rw [← after]
    refine .step (.start {} {}) (.loadText _ _) ⟨fun probing => (by cases probing), fun has => ?_⟩
    rcases graphs _ (after ▸ has) with rfl | rfl
    · rfl
    · cbv
  obtain ⟨s', created, _⟩ := createDisk_spec staged "b" (by cbv)
  rw [next] at created
  exact ⟨s, s', run, created, (sid_fresh run created).2.1⟩

/-- After the last sid was loaded, it is handed out again, and the device that had it is gone. -/
theorem handed_out_again : ∃ s s' : Session,
    Run (fun _ r => ∃ name text, r = .loadText name text) [] s ∧
    Command.edit stagingName (Creation.perform (.disk "b" 0)) s = .ok maxWord s' ∧
    (∃ g, s.graph stagingName = .ok g ∧ g.contains maxWord = true ∧ g.numDevices = 1) ∧
    ∃ g', s'.graph stagingName = .ok g' ∧ g'.numDevices = 1 ∧
      g'.disk maxWord = .ok { name := "b", sizeK := 0 } := by
  have valid : (lone maxWord).graph.check = .ok () := by cbv
  obtain ⟨s, after, staged, supply, _⟩ :=
    loadText_after ofText?_last ⟨by decide, by decide, by decide⟩ valid
  have next : s.supply.next = maxWord := by
    rw [supply]
    decide
  obtain ⟨s', created, staged'⟩ := createDisk_spec staged "b" (by cbv)
  rw [next] at created staged'
  refine ⟨s, s', ?_, created, ⟨_, staged, by cbv, by cbv⟩, _, staged', by cbv, by cbv⟩
  rw [← after]
  exact .step (.start {} {}) (.loadText _ _) ⟨_, _, rfl⟩

end Session

end StoragePlan

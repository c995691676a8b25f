import StoragePlan.Devicegraph.Render
import StoragePlan.Proofs.Holding
import StoragePlan.Proofs.MountOrder
import StoragePlan.Proofs.Scalars
import StoragePlan.Proofs.Sketches
import StoragePlan.Proofs.Timeline

/-!
# Drawings of devicegraphs and plans

Drawings put arbitrary texts into quotes: names of block devices, labels of filesystems and
mountpoints. Quotes in them are escaped, and nothing else needs to be, up to the end of a text: a
backslash there escapes the quote that should close the text.

So drawings are well formed exactly if what stands last in them does not end in a backslash. In the
label of a device that can only be the name of a block device (`Device.closes_displayName`), in the
label of an action also a mountpoint (`Action.closes_text`). Then a drawing is read back as what was
drawn (`drawings_exact`); with such a name it is not (`unread_unclosed`).
-/

namespace StoragePlan

open Attempt

/-! ### Devices -/

namespace Device

/-- Of all that devices are shown as, only the name of a block device is arbitrary to its end. -/
theorem closes_displayName (d : Device) :
    Dot.Closes d.displayName ↔ ∀ name, d.name? = some name → Dot.Closes name := by
  unfold displayName name? Attributes.name?
  cases d.attributes with
  | disk a => simp
  | partition p => simp
  | partitionTable t =>
    simp only [reduceCtorEq, false_implies, implies_true, iff_true]
    cases t.ptType <;> decide
  | filesystem fs =>
    simp only [reduceCtorEq, false_implies, implies_true, iff_true]
    split
    · cases fs.fsType <;> decide
    · exact Dot.Closes.append_of_ne (b := ")") (by decide) (by decide) _

/-- Descriptions end in a quote or a bracket. -/
theorem closes_description (d : Device) : Dot.Closes d.description := by
  unfold description
  split
  · exact Dot.Closes.append_of_ne (b := "'") (by decide) (by decide) _
  · exact Dot.Closes.append_of_ne (b := "'") (by decide) (by decide) _
  · exact Dot.Closes.append_of_ne (b := "]") (by decide) (by decide) _
  · exact Dot.Closes.append_of_ne (b := "]") (by decide) (by decide) _

end Device

/-! ### Devicegraphs -/

/-- The node for a device. -/
def Device.box (d : Device) : Dot.Box where
  name := "n" ++ toString d.sid
  label := d.kind.name ++ "\\n" ++ d.displayName
  color := Devicegraph.nodeColor d.kind

/-- The edge for a holder. -/
def Holder.link (h : Holder) : Dot.Link where
  source := "n" ++ toString h.source
  target := "n" ++ toString h.target
  style := some (Devicegraph.edgeStyle h.kind)

namespace Devicegraph

open Dot

/-- The names of the block devices can stand before a closing quote. -/
def NamesClose (g : Devicegraph) : Prop :=
  ∀ d ∈ g.devices, ∀ name, d.name? = some name → Closes name

/-- What a devicegraph draws. -/
def sketch (g : Devicegraph) : Sketch :=
  ⟨"devicegraph", g.devices.map Device.box, g.holders.map Holder.link⟩

theorem nodeLine_eq (d : Device) : nodeLine d = d.box.line := by
  have kind : escape d.kind.name = d.kind.name := by cases d.kind <;> decide
  have newline : escape "\\n" = "\\n" := by decide
  simp only [nodeLine, Box.line, Device.box, escape_append, kind, newline, toString]
  simp only [String.append_assoc]

theorem edgeLine_eq (h : Holder) : edgeLine h = h.link.line := by
  have arrow : " -> n" = " -> " ++ "n" := by decide
  simp only [edgeLine, Link.line, Holder.link, toString, arrow]
  simp only [String.append_assoc]

theorem dot_eq (g : Devicegraph) : g.dot = g.sketch.text := by
  have boxes : g.devices.map nodeLine = (g.devices.map Device.box).map Box.line := by
    rw [List.map_map]
    exact List.map_congr_left fun d _ => nodeLine_eq d
  have links : g.holders.map edgeLine = (g.holders.map Holder.link).map Link.line := by
    rw [List.map_map]
    exact List.map_congr_left fun h _ => edgeLine_eq h
  rw [dot, boxes, links]
  rfl

theorem bare_number (n : Nat) : Bare ("n" ++ toString n) :=
  bare_numbered (by rfl : "n".toList = ['n']) (by decide) n

theorem bare_devicegraph : Bare "devicegraph" :=
  ⟨⟨'d', "evicegraph".toList, by rfl, by decide, by decide⟩, by decide⟩

theorem isColor_nodeColor (kind : DeviceKind) : IsColor (nodeColor kind) := by
  cases kind <;> exact ⟨⟨_, by rfl⟩, by decide, by decide⟩

theorem plain_link (h : Holder) : h.link.Plain := by
  refine ⟨bare_number _, bare_number _, fun style hs => ?_⟩
  obtain rfl := Option.some.inj hs
  cases h.kind with
  | user => exact ⟨⟨'s', "olid".toList, by rfl, by decide, by decide⟩, by decide⟩
  | subdevice => exact ⟨⟨'d', "ashed".toList, by rfl, by decide, by decide⟩, by decide⟩

theorem plain_sketch (g : Devicegraph) : g.sketch.Plain where
  name := bare_devicegraph
  boxes := by
    intro b hb
    obtain ⟨d, _, rfl⟩ := List.mem_map.1 hb
    exact ⟨bare_number _, isColor_nodeColor _⟩
  links := by
    intro l hl
    obtain ⟨h, _, rfl⟩ := List.mem_map.1 hl
    exact plain_link h

theorem closes_label (d : Device) :
    Closes d.box.label ↔ ∀ name, d.name? = some name → Closes name := by
  have head : Closes (d.kind.name ++ "\\n") := by cases d.kind <;> decide
  rw [Device.box, closes_append head, d.closes_displayName]

/-- The labels of the devices can be read if the names of the block devices can. -/
theorem forall_closes_label (g : Devicegraph) :
    (∀ b ∈ g.sketch.boxes, Closes b.label) ↔ g.NamesClose := by
  rw [sketch, List.forall_mem_map]
  exact forall₂_congr fun d _ => closes_label d

theorem nodup_names (g : Devicegraph) : (g.sketch.boxes.map Box.name).Nodup := by
  rw [sketch, List.map_map]
  refine List.Pairwise.map _ (fun a b lt same => ?_) g.devices_ascending
  exact absurd (numbered_injective same) (Nat.ne_of_lt lt)

/-- The ends of all holders are devices that answer to their sids. -/
def Answered (g : Devicegraph) : Prop :=
  ∀ h ∈ g.holders, g.contains h.source = true ∧ g.contains h.target = true

theorem mem_names {g : Devicegraph} {sid : Sid} :
    "n" ++ toString sid ∈ g.sketch.boxes.map Box.name ↔ g.contains sid = true := by
  rw [sketch, List.map_map, contains_iff, List.mem_map]
  constructor
  · rintro ⟨d, hd, same⟩
    obtain rfl := numbered_injective same
    exact ⟨d, mem_devices.1 hd⟩
  · rintro ⟨d, hd⟩
    obtain rfl := sid_of_find? hd
    exact ⟨d, mem_devices.2 hd, rfl⟩

theorem joined_iff (g : Devicegraph) : g.sketch.Joined ↔ g.Answered := by
  rw [Sketch.Joined, sketch, List.forall_mem_map]
  exact forall₂_congr fun h _ => and_congr mem_names mem_names

theorem Whole.answered {g : Devicegraph} (h : g.Whole) : g.Answered := by
  have found : ∀ {r : Ref}, r ∈ g.nodes.map Node.ref → g.contains r.sid = true := fun hr =>
    contains_iff.2 (find?_of_anchor (h.depth_of_anchor hr ▸ hr))
  intro k hk
  obtain ⟨e, he, rfl⟩ := List.mem_map.1 ((List.mergeSort_perm _ _).mem_iff.1 hk)
  exact ⟨found (g.anchored e he).1, found (g.anchored e he).2⟩

end Devicegraph

/-! ### Actions -/

theorem Region.closes_text (r : Region) : Dot.Closes r.text :=
  Dot.Closes.append_of_ne (b := " B]") (by decide) (by decide) _

theorem Numeral.closes_hex (width n : Nat) : Dot.Closes (hex width n) := by
  refine Dot.closes_of_notMem fun met => ?_
  obtain ⟨d, digit⟩ := exists_digit?_of_mem_hex met
  cases digit

theorem Uuid.closes_text (u : Uuid) : Dot.Closes u.text := by
  refine Dot.closes_of_notMem fun met => ?_
  rw [toList_text] at met
  obtain ⟨part, hp, hc⟩ : ∃ part ∈ cut groups (Numeral.hex 32 u.value).toList, '\\' ∈ part := by
    simpa [cut, groups, List.intercalate] using met
  obtain ⟨d, digit⟩ := Numeral.exists_digit?_of_mem_hex (mem_of_mem_cut hp hc)
  cases digit

/-- What the attempt gives, if anything, can stand before a closing quote. -/
def Dot.GivesClosed (x : Except Failure String) : Prop := ∀ text, x = .ok text → Closes text

namespace Dot.GivesClosed

variable {α : Type} {x : Except Failure α} {f : α → Except Failure String} {text : String}

theorem bind (h : ∀ a, x = .ok a → GivesClosed (f a)) : GivesClosed (x >>= f) := by
  intro text ht
  obtain ⟨a, ha, ht⟩ := bind_eq_ok.1 ht
  exact h a ha text ht

theorem pure (h : Closes text) : GivesClosed (pure text) := by
  rintro _ ht
  exact pure_eq_ok.1 ht ▸ h

end Dot.GivesClosed

namespace Devicegraph

variable {g : Devicegraph} {sid : Sid}

namespace NamesClose

theorem of_find? (h : g.NamesClose) {d : Device} (hd : g.find? sid = some d) {name : String}
    (named : d.name? = some name) : Dot.Closes name :=
  h d (mem_devices.2 ((sid_of_find? hd).symm ▸ hd)) name named

theorem partition (h : g.NamesClose) {p : Partition} (hp : g.partition sid = .ok p) :
    Dot.Closes p.name := by
  obtain ⟨d, hd, ha⟩ := partition_eq_ok.1 hp
  refine h.of_find? hd ?_
  rw [Device.name?, ha]
  rfl

theorem displayName (h : g.NamesClose) (sid : Sid) : Dot.GivesClosed (g.displayName sid) :=
  .bind fun d hd => .pure (d.closes_displayName.2 fun _ => h.of_find? (find_eq_ok.1 hd))

theorem blkDeviceName (h : g.NamesClose) (sid : Sid) : Dot.GivesClosed (g.blkDeviceName sid) :=
  .bind fun device _ => h.displayName device

theorem tablePhrase (h : g.NamesClose) (sid : Sid) : Dot.GivesClosed (g.tablePhrase sid) :=
  .bind fun _ _ => .bind fun device _ => .bind fun disk hd => .pure <|
    (h.displayName device disk hd).behind (by decide) _

theorem filesystemPhrase (h : g.NamesClose) (sid : Sid) :
    Dot.GivesClosed (g.filesystemPhrase sid) :=
  .bind fun _ _ => .bind fun device hd => .pure <|
    (h.blkDeviceName sid device hd).behind (by decide) _

end NamesClose

/-- The mountpoints can stand before a closing quote. -/
def PathsClose (g : Devicegraph) : Prop :=
  ∀ sid fs, g.filesystem sid = .ok fs → ∀ path ∈ fs.mountpoints, Dot.Closes path

theorem PathsClose.of_find? (h : g.PathsClose) {d : Device} (hd : g.find? sid = some d)
    {path : String} (hp : path ∈ Plan.mountPaths d.attributes) : Dot.Closes path := by
  cases ha : d.attributes with
  | filesystem fs =>
    rw [ha] at hp
    exact h sid fs (filesystem_eq_ok.2 ⟨d, hd, ha⟩) path (Machine.mem_sortedMountpoints.1 hp)
  | _ =>
    rw [ha] at hp
    cases hp

end Devicegraph

namespace Action

variable {g lhs rhs : Devicegraph} {a : Action}

/-- An action is told with a name or a mountpoint at the end, or with nothing arbitrary there. -/
theorem closes_textIn (names : g.NamesClose)
    (paths : ∀ path, a.kind = .mount path ∨ a.kind = .unmount path → Dot.Closes path) :
    Dot.GivesClosed (a.textIn g lhs) := by
  unfold textIn
  cases kind : a.kind with
  | nop => exact .bind fun d _ => .pure (.append (by decide) d.closes_description)
  | createPartitionTable | deletePartitionTable =>
    exact .bind fun phrase hp => .pure (.append (by decide) (names.tablePhrase _ phrase hp))
  | createPartition =>
    exact .bind fun p _ => .pure (p.region.closes_text.behind (by decide) _)
  | deletePartition =>
    exact .bind fun p hp => .pure (.append (by decide) (names.partition hp))
  | resizePartition mode =>
    exact .bind fun new _ => .bind fun _ _ => .pure (new.region.closes_text.behind (by decide) _)
  | setPartitionId =>
    exact .bind fun p _ => .pure ((Numeral.closes_hex _ _).behind (by decide) _)
  | setBoot =>
    refine .bind fun p hp => .pure (.append ?_ (.append (by decide) (names.partition hp)))
    split <;> decide
  | createFilesystem =>
    refine .bind fun fs _ => .bind fun phrase hp => .pure (.append ?_ ?_)
    · exact .append (by decide) (names.filesystemPhrase _ phrase hp)
    · split
      · decide
      · exact .append_of_ne (by decide) (by decide) _
  | deleteFilesystem =>
    exact .bind fun phrase hp => .pure (.append (by decide) (names.filesystemPhrase _ phrase hp))
  | resizeFilesystem mode =>
    exact .bind fun phrase hp => .pure <|
      (names.filesystemPhrase _ phrase hp).behind (by decide) _
  | setLabel =>
    exact .bind fun _ _ => .bind fun _ _ => .pure (.append_of_ne (by decide) (by decide) _)
  | setUuid =>
    refine .bind fun fs _ => .bind fun _ _ => .pure ?_
    refine (Dot.Closes.append_of_ne (by decide) (by decide) _).append ?_
    cases fs.uuid with
    | none => decide
    | some uuid => exact uuid.closes_text
  | mount path =>
    refine .bind fun device hd => .pure ?_
    split
    · exact .append (by decide) (names.blkDeviceName _ device hd)
    · exact (paths path (.inl kind)).behind (by decide) _
  | unmount path =>
    refine .bind fun device hd => .pure ?_
    split
    · exact .append (by decide) (names.blkDeviceName _ device hd)
    · exact (paths path (.inr kind)).behind (by decide) _
  | updateFstab =>
    exact .bind fun device hd => .pure (.append (by decide) (names.blkDeviceName _ device hd))

theorem closes_text (before : lhs.NamesClose) (after : rhs.NamesClose)
    (paths : ∀ path, a.kind = .mount path ∨ a.kind = .unmount path → Dot.Closes path) :
    Dot.Closes (a.text lhs rhs) := by
  have seen : (if a.seenInBaseline rhs then lhs else rhs).NamesClose := by
    split
    · exact before
    · exact after
  unfold text
  split
  · next line hline => exact closes_textIn seen paths line hline
  · exact (Dot.closes_toString _).behind (by decide) _

end Action

/-! ### Plans -/

namespace Plan

open Dot

/-- The node for an action. -/
def box (p : Plan) (place : Nat) (a : Action) : Box where
  name := "a" ++ toString place
  label := p.text a
  color := a.kind.actionClass.color

/-- The edge for a dependency. -/
def link (d : Nat × Nat) : Link where
  source := "a" ++ toString d.1
  target := "a" ++ toString d.2

/-- What a plan draws. -/
def sketch (p : Plan) : Sketch :=
  ⟨"actiongraph", p.graph.actions.zipIdx.map fun (a, place) => p.box place a,
    p.graph.dependencies.map link⟩

theorem nodeLine_eq (p : Plan) (place : Nat) (a : Action) :
    p.nodeLine place a = (p.box place a).line := by
  simp only [nodeLine, Box.line, box, toString]
  simp only [String.append_assoc]

theorem edgeLine_eq (d : Nat × Nat) : edgeLine d = (link d).line := by
  have arrow : " -> a" = " -> " ++ "a" := by decide
  simp only [edgeLine, Link.line, link, toString, arrow]
  simp only [String.append_assoc]

theorem dot_eq (p : Plan) : p.dot = p.sketch.text := by
  have boxes : p.graph.actions.zipIdx.map (fun (a, place) => p.nodeLine place a) =
      p.sketch.boxes.map Box.line := by
    rw [sketch, List.map_map]
    exact List.map_congr_left fun x _ => p.nodeLine_eq x.2 x.1
  have links : p.graph.dependencies.map edgeLine = p.sketch.links.map Link.line := by
    rw [sketch, List.map_map]
    exact List.map_congr_left fun d _ => edgeLine_eq d
  rw [dot, boxes, links]
  rfl

theorem bare_place (n : Nat) : Bare ("a" ++ toString n) :=
  bare_numbered (by rfl : "a".toList = ['a']) (by decide) n

theorem bare_actiongraph : Bare "actiongraph" :=
  ⟨⟨'a', "ctiongraph".toList, by rfl, by decide, by decide⟩, by decide⟩

theorem isColor_actionClass (c : ActionClass) : IsColor c.color := by
  cases c <;> exact ⟨⟨_, by rfl⟩, by decide, by decide⟩

theorem plain_sketch (p : Plan) : p.sketch.Plain where
  name := bare_actiongraph
  boxes := by
    intro b hb
    obtain ⟨x, _, rfl⟩ := List.mem_map.1 hb
    exact ⟨bare_place _, isColor_actionClass _⟩
  links := by
    intro l hl
    obtain ⟨d, _, rfl⟩ := List.mem_map.1 hl
    exact ⟨bare_place _, bare_place _, fun style hs => by cases hs⟩

theorem names_sketch (p : Plan) : p.sketch.boxes.map Box.name =
    (List.range p.graph.actions.length).map fun place => "a" ++ toString place := by
  rw [List.range_eq_range', ← List.zipIdx_map_snd, sketch, List.map_map, List.map_map]
  rfl

theorem nodup_names (p : Plan) : (p.sketch.boxes.map Box.name).Nodup := by
  rw [names_sketch]
  exact List.nodup_range.map fun _ _ => numbered_injective

/-- The labels of the actions are their texts. -/
theorem forall_closes_label (p : Plan) :
    (∀ b ∈ p.sketch.boxes, Closes b.label) ↔ ∀ a ∈ p.graph.actions, Closes (p.text a) := by
  have labels : p.sketch.boxes.map Box.label = p.graph.actions.map p.text := by
    rw [sketch, List.map_map, ← List.zipIdx_map_fst 0 p.graph.actions, List.map_map]
    simp [Function.comp_def, box]
  rw [← List.forall_mem_map, labels, List.forall_mem_map]

variable {lhs rhs : Devicegraph} {p : Plan}

/-- A plan has the actions of a setting, and its dependencies follow the rules. -/
theorem exists_setting (h : between lhs rhs = .ok p) : ∃ (s : Setting) (replaced : List Sid),
    s.lhs = lhs ∧ s.rhs = rhs ∧ p.lhs = lhs ∧ p.rhs = rhs ∧ s.Sound replaced ∧
      p.graph.actions = s.actions ∧ ∀ d ∈ p.graph.dependencies, s.Precedes d.1 d.2 := by
  obtain ⟨hl, hr, graph, order, hg, _, rfl⟩ := between_eq_ok.1 h
  obtain ⟨s, replaced, dependencies, rfl, rfl, sound, hg', mem⟩ :=
    actiongraph_spec (Devicegraph.valid_of_check hl) (Devicegraph.valid_of_check hr)
  obtain rfl := Except.ok.inj (hg.symm.trans hg')
  exact ⟨s, replaced, rfl, rfl, rfl, rfl, sound, rfl, fun d hd => (mem d.1 d.2).1 hd⟩

/-- Dependencies are between actions of the plan. -/
theorem joined (h : between lhs rhs = .ok p) : p.sketch.Joined := by
  obtain ⟨s, replaced, -, -, -, -, sound, actions, precedes⟩ := exists_setting h
  have drawn : ∀ {i}, s.Taken i → "a" ++ toString i ∈ p.sketch.boxes.map Box.name := by
    intro i hi
    rw [names_sketch, actions]
    exact List.mem_map.2 ⟨i, List.mem_range.2 (sound.lt_length_of_taken hi), rfl⟩
  intro l hl
  obtain ⟨d, hd, rfl⟩ := List.mem_map.1 hl
  have rises := sound.rises_of_precedes (precedes d hd)
  exact ⟨drawn rises.source, drawn rises.target⟩

/-- What is mounted or unmounted is a mountpoint before or after. -/
theorem mountpoint_of_occurs {s : Setting} {replaced : List Sid} (h : s.Sound replaced) {i k : Nat}
    {c : Chain} {kind : ActionKind} (occurs : s.Occurs i c k kind) {path : String}
    (mounting : kind = .mount path ∨ kind = .unmount path) : ∃ g d, (g = s.lhs ∨ g = s.rhs) ∧
      g.find? c.sid = some d ∧ path ∈ mountPaths d.attributes := by
  have mem : kind ∈ mountings c.kinds := mem_mountings.2
    ⟨List.mem_of_getElem? occurs.kind_eq, by rcases mounting with rfl | rfl <;> rfl⟩
  cases h.shape occurs.mem with
  | @delete old _ goes kinds_eq =>
    rw [kinds_eq, mountings_deleteKinds] at mem
    rcases mounting with rfl | rfl
    · simp at mem
    · exact ⟨s.lhs, old, .inl rfl, goes.before, by simpa using mem⟩
  | partition _ _ _ _ kinds_eq =>
    rw [kinds_eq, mountings_partitionChanges] at mem
    cases mem
  | @filesystem old new o n _ _ stays ho hn _ kinds_eq =>
    rw [kinds_eq, mountings_filesystemChanges] at mem
    rcases mounting with rfl | rfl
    · obtain ⟨added, _⟩ : path ∈ sortedMountpoints n ∧ path ∉ sortedMountpoints o := by
        simpa using mem
      exact ⟨s.rhs, new, .inr rfl, stays.after, hn ▸ added⟩
    · obtain ⟨removed, _⟩ : path ∈ sortedMountpoints o ∧ path ∉ sortedMountpoints n := by
        simpa using mem
      exact ⟨s.lhs, old, .inl rfl, stays.before, ho ▸ removed⟩
  | @create new _ comes kinds_eq =>
    rw [kinds_eq, mountings_createKinds] at mem
    rcases mounting with rfl | rfl
    · exact ⟨s.rhs, new, .inr rfl, comes.after, by simpa using mem⟩
    · simp at mem

/-- Action texts end in names of block devices, in mountpoints or in nothing arbitrary. -/
theorem closes_text (h : between lhs rhs = .ok p) (before : lhs.NamesClose)
    (after : rhs.NamesClose) (paths : lhs.PathsClose) (paths' : rhs.PathsClose) :
    ∀ a ∈ p.graph.actions, Closes (p.text a) := by
  obtain ⟨s, replaced, hl, hr, rfl, rfl, sound, actions, -⟩ := exists_setting h
  intro a ha
  refine Action.closes_text before after fun path mounting => ?_
  rw [actions] at ha
  obtain ⟨i, hi⟩ := List.getElem?_of_mem ha
  obtain ⟨c, k, kind, occurs, rfl⟩ := sound.getElem?_actions.1 hi
  obtain ⟨g, d, hg, hd, hp⟩ := mountpoint_of_occurs sound occurs mounting
  rcases hg with rfl | rfl
  · exact paths.of_find? (hl ▸ hd) hp
  · exact paths'.of_find? (hr ▸ hd) hp

end Plan

/-! ### Every drawing -/

/-- The drawing of a devicegraph can be read exactly if no name of a block device ends in a
backslash, and the drawing of a plan exactly if no text of an action does, as when no such name and
no mountpoint does. What is read has a node for each device or action, with its label as it is, and
an edge for each holder or dependency. It has no other nodes, unless a holder is at a sid that no
device answers to, which takes a shadowed device. -/
theorem drawings_exact (g lhs rhs : Devicegraph) :
    (((∃ drawing, Dot.read? g.dot = some drawing) ↔ g.NamesClose) ∧
      ∀ drawing, Dot.read? g.dot = some drawing →
        drawing.edges = g.holders.map (fun h => h.link.edge) ∧
        g.devices.map (fun d => d.box.node) <+: drawing.nodes ∧
        (drawing.nodes = g.devices.map (fun d => d.box.node) ↔ g.Answered) ∧
        (g.Whole → drawing.nodes = g.devices.map fun d => d.box.node)) ∧
    ∀ p, Plan.between lhs rhs = .ok p →
      ((∃ drawing, Dot.read? p.dot = some drawing) ↔
        ∀ a ∈ p.graph.actions, Dot.Closes (p.text a)) ∧
      (lhs.NamesClose → rhs.NamesClose → lhs.PathsClose → rhs.PathsClose →
        ∃ drawing, Dot.read? p.dot = some drawing) ∧
      ∀ drawing, Dot.read? p.dot = some drawing →
        drawing.edges = p.graph.dependencies.map (fun d => (Plan.link d).edge) ∧
        drawing.nodes = p.graph.actions.zipIdx.map fun (a, place) => (p.box place a).node := by
  constructor
  · obtain ⟨readable, exact⟩ := g.plain_sketch.exact g.nodup_names
    rw [← g.dot_eq, g.forall_closes_label] at readable
    refine ⟨readable, fun drawing read => ?_⟩
    obtain ⟨edges, nodes, all⟩ := exact drawing (g.dot_eq ▸ read)
    rw [g.joined_iff] at all
    simp only [Devicegraph.sketch, List.map_map] at edges nodes all
    exact ⟨edges, nodes, all, fun h => all.2 h.answered⟩
  · intro p hp
    obtain ⟨readable, exact⟩ := p.plain_sketch.exact p.nodup_names
    rw [← p.dot_eq, p.forall_closes_label] at readable
    refine ⟨readable, fun before after paths paths' => ?_, fun drawing read => ?_⟩
    · exact readable.2 (Plan.closes_text hp before after paths paths')
    · obtain ⟨edges, -, nodes⟩ := exact drawing (p.dot_eq ▸ read)
      rw [Plan.sketch, List.map_map] at edges
      refine ⟨edges, ?_⟩
      rw [nodes.2 (Plan.joined hp), Plan.sketch, List.map_map]
      rfl

/-- A disk and a filesystem with quotes and backslashes in all their texts. -/
def awkward : Devicegraph where
  nodes := [⟨⟨2, .filesystem
      { fsType := .ext4, label := "\\", mountpoints := ["/\\\\\"\\x"] }, []⟩, 0⟩,
    ⟨⟨1, .disk { name := "\"\\\"a\\ \"", sizeK := 1024 }, []⟩, 0⟩]
  edges := [⟨⟨1, 0⟩, ⟨2, 0⟩, .user⟩]
  distinct := by simp [Node.ref]
  anchored := by simp [Node.ref]

theorem devices_awkward : awkward.devices =
    [⟨1, .disk { name := "\"\\\"a\\ \"", sizeK := 1024 }, []⟩, ⟨2, .filesystem
      { fsType := .ext4, label := "\\", mountpoints := ["/\\\\\"\\x"] }, []⟩] := by cbv

theorem namesClose_awkward : awkward.NamesClose := by
  intro d hd name named
  rw [devices_awkward] at hd
  rcases List.mem_pair.1 hd with rfl | rfl
  · obtain rfl := Option.some.inj named
    decide
  · cases named

theorem pathsClose_awkward : awkward.PathsClose := by
  intro sid fs hfs path hp
  obtain ⟨d, hd, ha⟩ := Devicegraph.filesystem_eq_ok.1 hfs
  have mem := Devicegraph.mem_devices.2 ((Devicegraph.sid_of_find? hd).symm ▸ hd)
  rw [devices_awkward] at mem
  rcases List.mem_pair.1 mem with rfl | rfl
  · cases ha
  · obtain rfl := Attributes.filesystem.inj ha
    obtain rfl := List.mem_singleton.1 hp
    decide

theorem drawings_exact_awkward :
    awkward.check = .ok () ∧
    (∃ drawing, Dot.read? awkward.dot = some drawing ∧
      drawing.nodes.map (fun n => (n.name, n.attributes.get? "label")) =
        [("n1", some "disk\\n\"\\\"a\\ \""), ("n2", some "filesystem\\next4 (\\)")] ∧
      drawing.edges = [⟨"n1", "n2", [("style", "solid")]⟩]) ∧
    ∃ p, Plan.between {} awkward = .ok p ∧
      ∃ drawing, Dot.read? p.dot = some drawing ∧
        drawing.nodes.map (fun n => (n.name, n.attributes.get? "label")) =
          [("a0", some "Nothing to do for disk '\"\\\"a\\ \"'"),
            ("a1", some "Create ext4 on \"\\\"a\\ \" with label '\\'"),
            ("a2", some "Mount \"\\\"a\\ \" at /\\\\\"\\x"),
            ("a3", some "Update fstab entries of \"\\\"a\\ \"")] ∧
        drawing.edges = [⟨"a1", "a2", []⟩, ⟨"a2", "a3", []⟩, ⟨"a0", "a1", []⟩] := by
  obtain ⟨⟨readable, exact⟩, plans⟩ := drawings_exact awkward {} awkward
  refine ⟨by cbv, ?_, ?_⟩
  · obtain ⟨drawing, read⟩ := readable.2 namesClose_awkward
    obtain ⟨edges, -, -, nodes⟩ := exact drawing read
    refine ⟨drawing, read, ?_, edges.trans ?_⟩
    · rw [nodes (by simp [Devicegraph.Whole, awkward]), devices_awkward]
      decide
    · cbv
  · have planned : (Plan.between {} awkward).map Plan.graph = .ok
        ⟨[⟨1, .nop, true, true⟩, ⟨2, .createFilesystem, true, false⟩,
          ⟨2, .mount "/\\\\\"\\x", false, false⟩, ⟨2, .updateFstab, false, true⟩],
          [(1, 2), (2, 3), (0, 1)]⟩ := by cbv
    cases hp : Plan.between {} awkward with
    | error f =>
      rw [hp] at planned
      cases planned
    | ok p =>
      obtain ⟨-, readable, exact⟩ := plans p hp
      have none : ({} : Devicegraph).devices = [] := by cbv
      have names : ({} : Devicegraph).NamesClose := fun d hd => by simp [none] at hd
      have paths : ({} : Devicegraph).PathsClose := fun sid fs hfs => by cases hfs
      obtain ⟨drawing, read⟩ := readable names namesClose_awkward paths pathsClose_awkward
      obtain ⟨edges, nodes⟩ := exact drawing read
      obtain ⟨-, -, -, -, before, after, -⟩ := Plan.exists_setting hp
      rw [hp] at planned
      have graph : p.graph = _ := Except.ok.inj planned
      refine ⟨p, rfl, drawing, read, ?_, ?_⟩
      · rw [nodes, graph]
        simp only [Plan.box, Plan.text, before, after]
        cbv
      · rw [edges, graph]
        cbv

/-- A disk with a backslash at the end of its name. -/
def unclosed : Devicegraph where
  nodes := [⟨⟨42, .disk { name := "a\\", sizeK := 0 }, []⟩, 0⟩]
  distinct := by simp [Node.ref]
  anchored := by simp

/-- The label takes in the quote that should close it. -/
theorem unread_unclosed : unclosed.check = .ok () ∧ Dot.read? unclosed.dot = none := by
  have devices : unclosed.devices = [⟨42, .disk { name := "a\\", sizeK := 0 }, []⟩] := by cbv
  refine ⟨by cbv, ?_⟩
  rw [unclosed.dot_eq, unclosed.plain_sketch.read?_text, if_neg]
  intro closes
  have shown := unclosed.forall_closes_label.1 closes ⟨42, .disk { name := "a\\", sizeK := 0 }, []⟩
    (by simp [devices]) "a\\" rfl
  exact absurd shown (by decide)

end StoragePlan

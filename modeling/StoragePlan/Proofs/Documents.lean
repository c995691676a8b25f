import StoragePlan.Proofs.Editing

/-!
# Devicegraphs of documents

A document is loaded by putting its devices and its holders into an empty devicegraph (`fill`),
which is then checked. A document is `Coherent` if nothing is refused on the way; the devicegraph is
then `Document.graph`, in which sids stand for the devices of the document and devices sit on each
other as its holders say (`Coherent.filled`, `Filled.find?_eq_some`, `Filled.sitsOn_iff`). The sids
of the devices are reserved on the way (`SidSupply.lt_reserveAll`).
-/

namespace StoragePlan

namespace SidSupply

/-- Sids were reserved between the two supplies, and none was handed out. -/
structure Raised (before after : SidSupply) : Prop where
  le : before.next ≤ after.next
  bound : after.next ≤ max before.next maxWord

namespace Raised

theorem refl (s : SidSupply) : s.Raised s := ⟨Nat.le_refl _, Nat.le_max_left ..⟩

theorem trans {a b c : SidSupply} (h : a.Raised b) (h' : b.Raised c) : a.Raised c := by
  have bound : ∀ k l m n : Nat, l ≤ max k n → m ≤ max l n → m ≤ max k n := by omega
  exact ⟨Nat.le_trans h.le h'.le, bound _ _ _ _ h.bound h'.bound⟩

end Raised

theorem raised_reserve (s : SidSupply) (sid : Sid) : s.Raised (s.reserve sid) := by
  have bound : ∀ m n k : Nat, max m (min (n + 1) k) ≤ max m k := by omega
  exact ⟨Nat.le_max_left _ _, bound ..⟩

/-- The supply after the sids of devices were reserved. -/
def reserveAll (s : SidSupply) (devices : List Device) : SidSupply :=
  devices.foldl (fun s d => s.reserve d.sid) s

theorem raised_reserveAll (s : SidSupply) (devices : List Device) :
    s.Raised (s.reserveAll devices) := by
  induction devices generalizing s with
  | nil => exact .refl s
  | cons d rest ih => exact (s.raised_reserve d.sid).trans (ih _)

/-- The supply goes past a reserved sid, except past the last one. -/
theorem le_reserveAll {s : SidSupply} {devices : List Device} {d : Device} (hd : d ∈ devices) :
    min (d.sid + 1) maxWord ≤ (s.reserveAll devices).next := by
  induction devices generalizing s with
  | nil => cases hd
  | cons c rest ih =>
    rcases List.mem_cons.1 hd with rfl | hd
    · have here : min (d.sid + 1) maxWord ≤ (s.reserve d.sid).next := Nat.le_max_right ..
      exact Nat.le_trans here (raised_reserveAll _ rest).le
    · exact ih hd

/-- A reserved sid will not be handed out next, unless it is the last one. -/
theorem lt_reserveAll {s : SidSupply} {devices : List Device} {d : Device} (hd : d ∈ devices)
    (more : d.sid < maxWord) : d.sid < (s.reserveAll devices).next := by
  have least : d.sid + 1 ≤ min (d.sid + 1) maxWord := Nat.le_min.2 ⟨Nat.le_refl _, more⟩
  exact Nat.le_trans least (le_reserveAll hd)

end SidSupply

/-- The edge for a holder between devices that answer to their sids. -/
def Holder.edge (h : Holder) : Edge := ⟨⟨h.source, 0⟩, ⟨h.target, 0⟩, h.kind⟩

namespace Devicegraph

/-- Adds a holder of a document. -/
def addEdgeOf (g : Devicegraph) (h : Holder) : Devicegraph := g.addEdge h.source h.target h.kind

/-- The devicegraph has these devices and holders, each added in turn. -/
structure Filled (g : Devicegraph) (devices : List Device) (holders : List Holder) : Prop where
  nodes : g.nodes = devices.reverse.map (⟨·, 0⟩)
  edges : g.edges = holders.reverse.map Holder.edge

namespace Filled

variable {g : Devicegraph} {devices : List Device} {holders : List Holder} {d : Device} {h : Holder}
  {x : Sid}

theorem empty : Filled .empty [] [] := ⟨rfl, rfl⟩

theorem whole (filled : Filled g devices holders) : g.Whole := by
  intro n hn
  rw [filled.nodes] at hn
  obtain ⟨d, _, rfl⟩ := List.mem_map.1 hn
  rfl

/-- A sid stands for the device with it. -/
theorem find?_eq_some (filled : Filled g devices holders) :
    g.find? x = some d ↔ d ∈ devices ∧ d.sid = x := by
  rw [Devicegraph.find?_eq_some, filled.nodes]
  simp

theorem find?_eq_none (filled : Filled g devices holders) :
    g.find? x = none ↔ x ∉ devices.map Device.sid := by
  simp [Option.eq_none_iff_forall_ne_some, filled.find?_eq_some]

theorem mem_edges (filled : Filled g devices holders) {e : Edge} :
    e ∈ g.edges ↔ ∃ h ∈ holders, h.edge = e := by
  rw [filled.edges]
  simp

theorem edgesAt_eq (filled : Filled g devices holders) (dir : Direction) (r : Ref) :
    g.edgesAt dir r = (holders.filter fun h => h.edge.tail dir == r).reverse.map Holder.edge := by
  rw [edgesAt, filled.edges, ← List.filter_reverse, List.filter_map]
  rfl

/-- Devices sit on each other as the holders say. -/
theorem sitsOn_iff (filled : Filled g devices holders) {child parent : Sid} :
    g.SitsOn child parent ↔ ∃ h ∈ holders, h.source = parent ∧ h.target = child := by
  unfold SitsOn
  simp only [filled.mem_edges, exists_exists_and_eq_and, Holder.edge, Ref.mk.injEq, and_true]

theorem addDevice (filled : Filled g devices []) (fresh : d.sid ∉ devices.map Device.sid) :
    Filled (g.addDevice d) (devices ++ [d]) [] := by
  obtain ⟨nodes, edges⟩ := addDevice_eq filled.whole (filled.find?_eq_none.2 fresh)
  refine ⟨?_, edges.trans filled.edges⟩
  rw [nodes, filled.nodes, List.reverse_append]
  rfl

theorem addEdge (filled : Filled g devices holders) (source : h.source ∈ devices.map Device.sid)
    (target : h.target ∈ devices.map Device.sid) :
    Filled (g.addEdgeOf h) devices (holders ++ [h]) := by
  have anchor : ∀ {x}, x ∈ devices.map Device.sid → ⟨x, 0⟩ ∈ g.nodes.map Node.ref := by
    intro x hx
    obtain ⟨d, hd⟩ := Option.ne_none_iff_exists'.1 fun none => filled.find?_eq_none.1 none hx
    exact anchor_of_find? hd
  rw [addEdgeOf, Devicegraph.addEdge, dif_pos ⟨anchor source, anchor target⟩]
  refine ⟨filled.nodes, ?_⟩
  change h.edge :: g.edges = _
  rw [filled.edges, List.reverse_append]
  rfl

end Filled

end Devicegraph

namespace Document

open Devicegraph

/-- The devices and then the holders of the document in an empty devicegraph. -/
def graph (d : Document) : Devicegraph :=
  d.holders.foldl addEdgeOf (d.devices.foldl addDevice .empty)

/-- No sid is used twice, the holders join devices of the document, and no two join the same. -/
structure Coherent (d : Document) : Prop where
  distinct : (d.devices.map Device.sid).Nodup
  anchored : ∀ h ∈ d.holders,
    h.source ∈ d.devices.map Device.sid ∧ h.target ∈ d.devices.map Device.sid
  single : (d.holders.map fun h => (h.source, h.target)).Nodup

end Document

namespace Devicegraph.Filled

variable {g : Devicegraph} {devices : List Device} {holders : List Holder}

theorem foldl_addDevice (filled : Filled g devices []) {rest : List Device}
    (distinct : (rest.map Device.sid).Nodup) (free : ∀ d ∈ rest, g.find? d.sid = none) :
    Filled (rest.foldl Devicegraph.addDevice g) (devices ++ rest) [] := by
  induction rest generalizing g devices with
  | nil => simpa using filled
  | cons d rest ih =>
    obtain ⟨once, distinct⟩ := List.nodup_cons.1 distinct
    obtain ⟨fresh, free⟩ := List.forall_mem_cons.1 free
    rw [← List.singleton_append, ← List.append_assoc]
    refine ih (filled.addDevice (filled.find?_eq_none.1 fresh)) distinct fun c hc => ?_
    rw [find?_addDevice, if_neg, free c hc]
    intro same
    exact once (same ▸ List.mem_map_of_mem hc)

theorem foldl_addEdge (filled : Filled g devices holders) {rest : List Holder}
    (anchored : ∀ h ∈ rest, h.source ∈ devices.map Device.sid ∧ h.target ∈ devices.map Device.sid) :
    Filled (rest.foldl addEdgeOf g) devices (holders ++ rest) := by
  induction rest generalizing g holders with
  | nil => simpa using filled
  | cons h rest ih =>
    obtain ⟨⟨source, target⟩, anchored⟩ := List.forall_mem_cons.1 anchored
    rw [← List.singleton_append, ← List.append_assoc]
    exact ih (filled.addEdge source target) anchored

end Devicegraph.Filled

theorem Document.Coherent.filled {d : Document} (h : d.Coherent) :
    d.graph.Filled d.devices d.holders := by
  have devices : (d.devices.foldl Devicegraph.addDevice .empty).Filled d.devices [] :=
    Devicegraph.Filled.empty.foldl_addDevice h.distinct fun _ _ => rfl
  exact devices.foldl_addEdge h.anchored

/-! ### Reading a document -/

namespace Document

open Yaml

variable {text : String} {d : Document}

theorem exists_of_mem_mapM {α β : Type} {read : α → Option β} {l : List α} {r : List β} {b : β}
    (h : l.mapM read = some r) (hb : b ∈ r) : ∃ a ∈ l, read a = some b := by
  induction l generalizing r with
  | nil =>
    obtain rfl := Option.some.inj h
    cases hb
  | cons a rest ih =>
    simp only [List.mapM_cons, Option.bind_eq_bind, Option.bind_eq_some_iff] at h
    obtain ⟨c, hc, others, hrest, h⟩ := h
    obtain rfl := Option.some.inj h
    rcases List.mem_cons.1 hb with rfl | hb
    · exact ⟨a, List.mem_cons_self, hc⟩
    · obtain ⟨a', ha', read⟩ := ih hrest hb
      exact ⟨a', List.mem_cons_of_mem _ ha', read⟩

/-- A sid that is read is in the range. -/
theorem sid_le_of_device? {n : Tree} {c : Device} (h : device? n = some c) : c.sid ≤ maxWord := by
  simp only [device?, Option.bind_eq_bind, Option.bind_eq_some_iff] at h
  obtain ⟨_, _, fields, _, sid, hsid, _, _, _, _, _, _, h⟩ := h
  obtain rfl := Option.some.inj h
  obtain ⟨value, _, read⟩ := Option.bind_eq_some_iff.1 hsid
  unfold Tree.natural? at read
  split at read
  · exact of_decide_eq_true (Option.filter_eq_some_iff.1 read).2
  · cases read

theorem sid_le_of_ofText? (h : ofText? text = some d) : ∀ c ∈ d.devices, c.sid ≤ maxWord := by
  intro c hc
  obtain ⟨tree, _, h⟩ := Option.bind_eq_some_iff.1 h
  simp only [ofTree?, Option.bind_eq_bind, Option.bind_eq_some_iff] at h
  obtain ⟨_, _, fields, _, devices, hdevices, holders, _, h⟩ := h
  obtain rfl := Option.some.inj h
  unfold optional? at hdevices
  split at hdevices
  · obtain ⟨items, _, read⟩ := Option.bind_eq_some_iff.1 hdevices
    obtain ⟨n, _, hn⟩ := exists_of_mem_mapM read hc
    exact sid_le_of_device? hn
  · obtain rfl := Option.some.inj hdevices
    cases hc

end Document

/-! ### Putting a document into a devicegraph -/

namespace Edit

open Step Devicegraph

variable {s s' : Editor} {devices : List Device} {holders : List Holder}

/-- Adds the devices and holders of a document. -/
def fill (d : Document) : Edit Unit := do
  d.devices.forM insertDevice
  d.holders.forM fun h => addHolder h.source h.target h.kind

/-- Loading is to add everything and to check the result. -/
theorem load_eq (d : Document) :
    load d = fill d >>= fun _ => check.within "Loaded devicegraph is invalid" := by
  simp only [load, fill, bind_assoc]

theorem insertDevice_eq_ok {d : Device} : insertDevice d s = .ok () s' ↔
    s.graph.contains d.sid = false ∧
      s' = { s with graph := s.graph.addDevice d, supply := s.supply.reserve d.sid } := by
  have state : (get : Edit Editor) s = .ok s s := rfl
  rw [insertDevice, bind_of_ok state]
  cases taken : s.graph.contains d.sid with
  | true =>
    refine iff_of_false (fun h => ?_) (by simp)
    cases h
  | false =>
    rw [and_iff_right rfl]
    constructor
    · rintro ⟨⟩
      rfl
    · rintro rfl
      rfl

/-- Whether a holder leads from one device to another one. -/
theorem findHolder_isSome {g : Devicegraph} {source target : Sid} :
    (g.findHolder source target).toOption.isSome = true ↔ g.SitsOn target source := by
  constructor
  · intro found
    cases h : g.findHolder source target with
    | error f =>
      rw [h] at found
      cases found
    | ok holder =>
      simp only [findHolder, Attempt.bind_eq_ok] at h
      obtain ⟨_, _, _, _, h⟩ := h
      split at h
      · next e he =>
        have joins := List.find?_some he
        rw [Bool.and_eq_true, beq_iff_eq, beq_iff_eq] at joins
        exact ⟨e, List.mem_of_find?_eq_some he, joins.1, joins.2⟩
      · cases h
  · intro sits
    obtain ⟨p, hp⟩ := sits.parent_found
    obtain ⟨c, hc⟩ := sits.child_found
    obtain ⟨e, he, hs, ht⟩ := sits
    obtain ⟨e', he'⟩ := Option.isSome_iff_exists.1 <|
      (List.find?_isSome (p := fun e : Edge =>
        e.source == ⟨source, 0⟩ && e.target == ⟨target, 0⟩)).2 ⟨e, he, by simp [hs, ht]⟩
    simp only [findHolder, find_eq_ok.2 hp, find_eq_ok.2 hc, bind, Except.bind, he']
    rfl

/-- A holder is added between devices that are there and not joined yet. -/
theorem addHolder_spec (source target : Sid) (kind : HolderKind) :
    ((∃ s', addHolder source target kind s = .ok () s') ↔
      (∃ p, s.graph.find? source = some p) ∧ (∃ c, s.graph.find? target = some c) ∧
        ¬s.graph.SitsOn target source) ∧
    ∀ s', addHolder source target kind s = .ok () s' →
      Changed s (s.graph.addEdge source target kind) () s' := by
  have checks := addHolder_checksFirst (s := s) source target kind
  refine ⟨?_, fun s' added => (checks.of_ok added).2⟩
  have performed : (∃ s', addHolder source target kind s = .ok () s') ↔ _ :=
    ⟨fun ⟨s', added⟩ => (checks.of_ok added).1, fun accepted => by
      obtain ⟨_, s', added, _⟩ := checks.accepted accepted
      exact ⟨s', added⟩⟩
  rw [performed]
  simp only [Attempt.bind_eq_ok, Attempt.refuse_eq_ok, find_eq_ok, findHolder_isSome,
    Attempt.pure_eq_ok, and_true]
  constructor
  · rintro ⟨p, hp, c, hc, apart⟩
    exact ⟨⟨p, hp⟩, ⟨c, hc⟩, apart⟩
  · rintro ⟨⟨p, hp⟩, ⟨c, hc⟩, apart⟩
    exact ⟨p, hp, c, hc, apart⟩

/-- Devices are inserted if their sids are new and differ. -/
theorem forM_insertDevice {rest : List Device} : rest.forM insertDevice s = .ok () s' ↔
    ((rest.map Device.sid).Nodup ∧ ∀ d ∈ rest, s.graph.find? d.sid = none) ∧
      s' = { s with
        graph := rest.foldl Devicegraph.addDevice s.graph
        supply := s.supply.reserveAll rest } := by
  induction rest generalizing s with
  | nil =>
    simp only [List.map_nil, List.nodup_nil, List.not_mem_nil, false_implies, implies_true,
      and_self, true_and, List.foldl_nil]
    exact ⟨fun h => by cases h; rfl, fun h => h ▸ rfl⟩
  | cons d rest ih =>
    have free : (∀ c ∈ rest, (s.graph.addDevice d).find? c.sid = none) ↔
        d.sid ∉ rest.map Device.sid ∧ ∀ c ∈ rest, s.graph.find? c.sid = none := by
      simp only [Devicegraph.find?_addDevice, List.mem_map, not_exists, not_and]
      constructor
      · intro h
        refine ⟨fun c hc same => ?_, fun c hc => ?_⟩
        · simpa [same] using h c hc
        · by_cases same : c.sid = d.sid <;> simpa [same] using h c hc
      · rintro ⟨other, h⟩ c hc
        rw [if_neg (other c hc), h c hc]
    simp only [forM_cons_eq_ok, insertDevice_eq_ok, contains_eq_false, List.foldl_cons,
      List.map_cons, List.nodup_cons, List.forall_mem_cons]
    constructor
    · rintro ⟨s₁, ⟨fresh, rfl⟩, inserted⟩
      obtain ⟨⟨distinct, others⟩, rfl⟩ := ih.1 inserted
      obtain ⟨once, others⟩ := free.1 others
      exact ⟨⟨⟨once, distinct⟩, fresh, others⟩, rfl⟩
    · rintro ⟨⟨⟨once, distinct⟩, fresh, others⟩, rfl⟩
      exact ⟨_, ⟨fresh, rfl⟩, ih.2 ⟨⟨distinct, free.2 ⟨once, others⟩⟩, rfl⟩⟩

theorem sitsOn_addEdge {g : Devicegraph} {source target child parent : Sid} {kind : HolderKind}
    (hs : ∃ p, g.find? source = some p) (ht : ∃ c, g.find? target = some c) :
    (g.addEdge source target kind).SitsOn child parent ↔
      child = target ∧ parent = source ∨ g.SitsOn child parent := by
  obtain ⟨p, hs⟩ := hs
  obtain ⟨c, ht⟩ := ht
  rw [Devicegraph.addEdge, dif_pos ⟨anchor_of_find? hs, anchor_of_find? ht⟩]
  simp only [SitsOn, List.mem_cons, exists_eq_or_imp, Ref.mk.injEq, and_true]
  rw [@eq_comm _ source, @eq_comm _ target, and_comm]

/-- Holders are added if their devices are there and each joins two that are not joined yet. -/
theorem forM_addHolder (rest : List Holder) :
    ((∃ s', rest.forM (fun h => addHolder h.source h.target h.kind) s = .ok () s') ↔
      (∀ h ∈ rest, (∃ p, s.graph.find? h.source = some p) ∧ ∃ c, s.graph.find? h.target = some c) ∧
      (rest.map fun h => (h.source, h.target)).Nodup ∧
      ∀ h ∈ rest, ¬s.graph.SitsOn h.target h.source) ∧
    ∀ s', rest.forM (fun h => addHolder h.source h.target h.kind) s = .ok () s' →
      Changed s (rest.foldl addEdgeOf s.graph) () s' := by
  induction rest generalizing s with
  | nil =>
    refine ⟨iff_of_true ⟨s, rfl⟩ (by simp), fun s' h => ?_⟩
    cases h
    exact ⟨rfl, rfl⟩
  | cons h rest ih =>
    obtain ⟨possible, effect⟩ := addHolder_spec (s := s) h.source h.target h.kind
    have later : ∀ {s₁}, addHolder h.source h.target h.kind s = .ok () s₁ →
        ((∃ s', rest.forM (fun h => addHolder h.source h.target h.kind) s₁ = .ok () s') ↔
          (∀ k ∈ rest, (∃ p, s.graph.find? k.source = some p) ∧
            ∃ c, s.graph.find? k.target = some c) ∧
          (rest.map fun h => (h.source, h.target)).Nodup ∧
          ∀ k ∈ rest, ¬(k.target = h.target ∧ k.source = h.source ∨
            s.graph.SitsOn k.target k.source)) := by
      intro s₁ added
      obtain ⟨hs, ht, _⟩ := possible.1 ⟨s₁, added⟩
      rw [ih.1, (effect s₁ added).graph]
      simp only [Devicegraph.find?_addEdge, sitsOn_addEdge hs ht]
    refine ⟨?_, fun s' added => ?_⟩
    · simp only [forM_cons_eq_ok, List.map_cons, List.nodup_cons, List.forall_mem_cons]
      constructor
      · rintro ⟨s', s₁, first, others⟩
        obtain ⟨hs, ht, apart⟩ := possible.1 ⟨s₁, first⟩
        obtain ⟨found, distinct, new⟩ := (later first).1 ⟨s', others⟩
        refine ⟨⟨⟨hs, ht⟩, found⟩, ⟨?_, distinct⟩, apart, fun k hk sits => new k hk (.inr sits)⟩
        intro again
        obtain ⟨k, hk, same⟩ := List.mem_map.1 again
        obtain ⟨source, target⟩ := Prod.mk.injEq .. ▸ same
        exact new k hk (.inl ⟨target, source⟩)
      · rintro ⟨⟨⟨hs, ht⟩, found⟩, ⟨once, distinct⟩, apart, new⟩
        obtain ⟨s₁, first⟩ := possible.2 ⟨hs, ht, apart⟩
        have still : ∀ k ∈ rest, ¬(k.target = h.target ∧ k.source = h.source ∨
            s.graph.SitsOn k.target k.source) := by
          rintro k hk (⟨target, source⟩ | sits)
          · exact once (List.mem_map.2 ⟨k, hk, by rw [target, source]⟩)
          · exact new k hk sits
        obtain ⟨s', others⟩ := (later first).2 ⟨found, distinct, still⟩
        exact ⟨s', s₁, first, others⟩
    · obtain ⟨s₁, first, rest⟩ := forM_cons_eq_ok.1 added
      obtain ⟨graph, supply⟩ := ih.2 s' rest
      obtain ⟨graph₁, supply₁⟩ := effect s₁ first
      exact ⟨graph.trans (by rw [graph₁]; rfl), supply.trans supply₁⟩

/-- A document can be put into an empty devicegraph exactly if it is coherent. -/
theorem fill_spec (d : Document) (empty : s.graph = .empty) :
    ((∃ s', fill d s = .ok () s') ↔ d.Coherent) ∧
    ∀ s', fill d s = .ok () s' → s'.graph = d.graph ∧
      s'.supply = s.supply.reserveAll d.devices := by
  have free : ∀ c ∈ d.devices, s.graph.find? c.sid = none := fun c _ => by rw [empty]; rfl
  let s₁ : Editor := { s with
    graph := d.devices.foldl Devicegraph.addDevice s.graph
    supply := s.supply.reserveAll d.devices }
  have step : ∀ {s'}, fill d s = .ok () s' ↔ (d.devices.map Device.sid).Nodup ∧
      d.holders.forM (fun h => addHolder h.source h.target h.kind) s₁ = .ok () s' := by
    intro s'
    rw [fill, bind_eq_ok]
    constructor
    · rintro ⟨_, s₂, devices, holders⟩
      obtain ⟨⟨distinct, _⟩, rfl⟩ := forM_insertDevice.1 devices
      exact ⟨distinct, holders⟩
    · rintro ⟨distinct, holders⟩
      exact ⟨(), s₁, forM_insertDevice.2 ⟨⟨distinct, free⟩, rfl⟩, holders⟩
  obtain ⟨possible, effect⟩ := forM_addHolder (s := s₁) d.holders
  simp only [step, exists_and_left, possible]
  refine ⟨?_, fun s' ⟨distinct, joined⟩ => ?_⟩
  · have filled : (d.devices.map Device.sid).Nodup → s₁.graph.Filled d.devices [] :=
      fun distinct => by
        have filled := Filled.empty.foldl_addDevice distinct fun _ _ => rfl
        rwa [← empty] at filled
    have found : (d.devices.map Device.sid).Nodup → ∀ x, (∃ c, s₁.graph.find? x = some c) ↔
        x ∈ d.devices.map Device.sid := fun distinct x => by
      simp [(filled distinct).find?_eq_some]
    constructor
    · rintro ⟨distinct, anchored, single, _⟩
      refine ⟨distinct, fun h hh => ?_, single⟩
      rw [← found distinct, ← found distinct]
      exact anchored h hh
    · rintro ⟨distinct, anchored, single⟩
      refine ⟨distinct, fun h hh => ?_, single, fun h _ => ?_⟩
      · rw [found distinct, found distinct]
        exact anchored h hh
      · simp [(filled distinct).sitsOn_iff]
  · obtain ⟨graph, supply⟩ := effect s' joined
    refine ⟨graph.trans ?_, supply⟩
    rw [Document.graph, ← empty]

/-- A document is loaded into an empty devicegraph exactly if it is coherent and its devicegraph
passes the check. -/
theorem load_spec (d : Document) (empty : s.graph = .empty) :
    ((∃ s', load d s = .ok () s') ↔ d.Coherent ∧ d.graph.check = .ok ()) ∧
    ∀ s', load d s = .ok () s' →
      s'.graph = d.graph ∧ s'.supply = s.supply.reserveAll d.devices := by
  obtain ⟨possible, effect⟩ := fill_spec d empty
  have step : ∀ {s'}, load d s = .ok () s' ↔ ∃ s₁, fill d s = .ok () s₁ ∧
      s₁.graph.check = .ok () ∧ s' = { s₁ with log := s₁.log.write s₁.graph.checkRecords } := by
    intro s'
    rw [load_eq, bind_eq_ok]
    simp only [Step.within, mapFailure_eq_ok, check_eq_ok]
    constructor
    · rintro ⟨_, s₁, filled, checked⟩
      exact ⟨s₁, filled, checked⟩
    · rintro ⟨s₁, filled, checked⟩
      exact ⟨(), s₁, filled, checked⟩
  simp only [step]
  refine ⟨⟨?_, ?_⟩, ?_⟩
  · rintro ⟨_, s₁, filled, valid, _⟩
    rw [(effect s₁ filled).1] at valid
    exact ⟨possible.1 ⟨s₁, filled⟩, valid⟩
  · rintro ⟨coherent, valid⟩
    obtain ⟨s₁, filled⟩ := possible.2 coherent
    exact ⟨_, s₁, filled, by rwa [(effect s₁ filled).1], rfl⟩
  · rintro s' ⟨s₁, filled, _, rfl⟩
    exact effect s₁ filled

theorem loadText_of_ofText? {text : String} {d : Document} (h : Document.ofText? text = some d) :
    loadText text = load d := by
  rw [loadText, h]

/-- What is read from a text is a coherent document, and its sids are reserved. -/
theorem loadText_eq_ok {text : String} (empty : s.graph = .empty)
    (h : loadText text s = .ok () s') : ∃ d, Document.ofText? text = some d ∧ d.Coherent ∧
      s'.graph = d.graph ∧ s'.supply = s.supply.reserveAll d.devices := by
  cases hd : Document.ofText? text with
  | none =>
    rw [loadText, hd] at h
    cases h
  | some d =>
    rw [loadText_of_ofText? hd] at h
    obtain ⟨possible, effect⟩ := load_spec d empty
    exact ⟨d, rfl, (possible.1 ⟨s', h⟩).1, effect s' h⟩

end Edit

end StoragePlan

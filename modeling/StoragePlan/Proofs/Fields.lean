import StoragePlan.Devicegraph.Document
import StoragePlan.Proofs.Scalars

/-!
# Documents and their trees

A document reads back from its tree (`Document.ofTree?_toTree`) if its numbers are in the range of
their fields and user data comes by key (`Document.Storable`). A record is read by looking up its
fields (`fields?_spec`). A field that was left out because it was empty is not found, and then its
default is empty as well.
-/

namespace StoragePlan

/-! ### Fields -/

namespace Yaml

variable {α : Type}

theorem eraseDups_of_nodup {names : List String} (h : names.Nodup) : names.eraseDups = names := by
  induction names with
  | nil => rfl
  | cons a rest ih =>
    obtain ⟨once, distinct⟩ := List.nodup_cons.1 h
    have others : rest.filter (fun b => !b == a) = rest := by
      refine List.filter_eq_self.2 fun b hb => ?_
      have ne : b ≠ a := fun same => once (same ▸ hb)
      simpa using ne
    rw [List.eraseDups_cons, others, ih distinct]

theorem lookup_filter {entries : List (String × α)} {p : String → Bool} {key : String}
    (hp : p key = true) : (entries.filter fun e => p e.1).lookup key = entries.lookup key := by
  induction entries with
  | nil => rfl
  | cons e rest ih =>
    obtain ⟨k, a⟩ := e
    by_cases same : key = k
    · subst same
      simp [hp]
    · have ne : (key == k) = false := by simpa using same
      by_cases kept : p k = true <;> simp [List.lookup_cons, kept, ne, ih]

/-- Where no key is there twice, the known fields are found as they are. -/
theorem fields?_spec (known : List String) (strict : Bool) (entries : List (String × α))
    (distinct : (entries.map Prod.fst).Nodup)
    (covered : strict = true → ∀ key ∈ entries.map Prod.fst, key ∈ known) :
    ∃ fields, fields? known strict entries = some fields ∧
      ∀ key ∈ known, fields.lookup key = entries.lookup key := by
  let ours := entries.filter fun e => known.contains e.1
  let others := entries.filter fun e => !known.contains e.1
  refine ⟨ours, ?_, fun key hk => lookup_filter (List.contains_iff_mem.2 hk)⟩
  have once : (ours.map Prod.fst).eraseDups = ours.map Prod.fst :=
    eraseDups_of_nodup (distinct.sublist (List.filter_sublist.map _))
  have accepted : (strict && !others.isEmpty) = false := by
    cases strict with
    | false => rfl
    | true =>
      simp only [others, Bool.true_and, Bool.not_eq_false', List.isEmpty_iff,
        List.filter_eq_nil_iff]
      intro e he
      simpa using covered rfl e.1 (List.mem_map_of_mem he)
  unfold fields?
  rw [List.partition_eq_filter_filter]
  refine if_neg ?_
  change ¬((strict && !others.isEmpty) ||
    decide ((ours.map Prod.fst).eraseDups.length < ours.length)) = true
  rw [accepted, once]
  simp

/-- Reading the values of entries leaves their keys alone. -/
theorem keys_of_mapM {β : Type} {read : α → Option β} {entries : List (String × α)}
    {values : List (String × β)}
    (h : (entries.mapM fun e => do return (e.1, ← read e.2)) = some values) :
    values.map Prod.fst = entries.map Prod.fst := by
  induction entries generalizing values with
  | nil =>
    obtain rfl := Option.some.inj h
    rfl
  | cons e rest ih =>
    simp only [List.mapM_cons, Option.bind_eq_bind, Option.bind_eq_some_iff] at h
    obtain ⟨first, ⟨b, _, hb⟩, others, hrest, h⟩ := h
    obtain rfl := Option.some.inj hb
    obtain rfl := Option.some.inj h
    exact congrArg (e.1 :: ·) (ih hrest)

theorem required?_found {β : Type} {key : String} {read : α → Option β} {fields : List (String × α)}
    {a : α} (h : fields.lookup key = some a) : required? key read fields = read a := by
  rw [required?, h]
  rfl

theorem optional?_found {β : Type} {key : String} {read : α → Option β} {default : β}
    {fields : List (String × α)} {a : α} (h : fields.lookup key = some a) :
    optional? key read default fields = read a := by
  rw [optional?, h]

theorem optional?_missing {β : Type} {key : String} {read : α → Option β} {default : β}
    {fields : List (String × α)} (h : fields.lookup key = none) :
    optional? key read default fields = some default := by
  rw [optional?, h]

end Yaml

/-! ### Regions -/

namespace Region

open Yaml

/-- The numbers have 64 bits. -/
structure InRange (r : Region) : Prop where
  start : r.start ≤ maxWord
  length : r.length ≤ maxWord
  sectorSize : r.sectorSize ≤ maxWord

/-- The value of the tree of a region. -/
def toValue (r : Region) : Value :=
  .map [(.text "start", .natural r.start), (.text "length", .natural r.length),
    (.text "sector-size", .natural r.sectorSize)]

variable {r : Region}

theorem value?_toTree (h : r.InRange) : r.toTree.value? = some r.toValue := by
  have start : (Tree.plain "start").value? = some (.text "start") :=
    Tree.value?_plain (by decide +kernel)
  have length : (Tree.plain "length").value? = some (.text "length") :=
    Tree.value?_plain (by decide +kernel)
  have sectorSize : (Tree.plain "sector-size").value? = some (.text "sector-size") :=
    Tree.value?_plain (by decide +kernel)
  simp only [toTree, Tree.record, List.map_cons, List.map_nil, Tree.value?, pairs?, start, length,
    sectorSize, Tree.value?_number h.start, Tree.value?_number h.length,
    Tree.value?_number h.sectorSize]
  rfl

theorem ofValue?_toValue (h : r.InRange) : ofValue? r.toValue = some r := by
  have distinct : fieldNames.Nodup := by decide
  obtain ⟨fields, read, found⟩ := fields?_spec fieldNames true [("start", Value.natural r.start),
    ("length", .natural r.length), ("sector-size", .natural r.sectorSize)] distinct fun _ _ => id
  simp only [fieldNames, List.forall_mem_cons] at found
  simp [ofValue?, toValue, fieldName?, read, required?, optional?, found, List.lookup_cons,
    Value.word?, Value.natural?, h.start, h.length, h.sectorSize]

end Region

/-! ### Attributes -/

namespace Document

open Yaml

/-- The values of the entries for the attributes of a device. -/
def attributeValues : Attributes → List (String × Value)
  | .disk d =>
    [("name", .text d.name), ("size-k", .natural d.sizeK), ("sector-size", .natural d.sectorSize),
      ("rotational", .bool d.rotational), ("transport", .text d.transport.name)]
  | .partitionTable t => [("pt-type", .text t.ptType.name)]
  | .partition p =>
    [("name", .text p.name), ("partition-type", .text p.type.name),
      ("region", p.region.toValue), ("id", .natural p.id), ("boot", .bool p.boot)]
  | .filesystem fs =>
    [("fs-type", .text fs.fsType.name), ("label", .text fs.label)] ++
      (fs.uuid.toList.map fun u => ("uuid", .text u.text)) ++
      (if fs.mountpoints.isEmpty then []
        else [("mountpoints", .list (fs.mountpoints.map .text))]) ++
      [("mount-by", .text fs.mountBy.name)] ++
      (if fs.fstabOptions.isEmpty then []
        else [("fstab-options", .list (fs.fstabOptions.map .text))])

end Document

/-- The numbers are in the range of their fields. -/
def Attributes.InRange : Attributes → Prop
  | .disk d => d.sizeK ≤ maxWord ∧ d.sectorSize ≤ maxWord
  | .partitionTable _ => True
  | .partition p => p.region.InRange ∧ p.id ≤ maxHalfWord
  | .filesystem fs => ∀ u ∈ fs.uuid, u.InRange

namespace Document

open Yaml

variable {a : Attributes}

theorem values_attributeEntries (h : a.InRange) :
    ((attributeEntries a).mapM fun e => do return (e.1, ← e.2.value?)) =
      some (attributeValues a) := by
  cases a with
  | disk d =>
    obtain ⟨size, sector⟩ := h
    have transport : (Tree.plain d.transport.name).value? = some (.text d.transport.name) :=
      Tree.value?_name d.transport
    simp [attributeEntries, attributeValues, Tree.value?_ofString, Tree.value?_number,
      Tree.value?_flag, size, sector, transport]
  | partitionTable t =>
    have ptType : (Tree.plain t.ptType.name).value? = some (.text t.ptType.name) :=
      Tree.value?_name t.ptType
    simp [attributeEntries, attributeValues, ptType]
  | partition p =>
    obtain ⟨region, id⟩ := h
    have type : (Tree.plain p.type.name).value? = some (.text p.type.name) :=
      Tree.value?_name p.type
    have id : p.id ≤ maxWord := Nat.le_trans id (by decide)
    simp [attributeEntries, attributeValues, Tree.value?_ofString, Tree.value?_number,
      Tree.value?_flag, Region.value?_toTree, region, id, type]
  | filesystem fs =>
    have fsType : (Tree.plain fs.fsType.name).value? = some (.text fs.fsType.name) :=
      Tree.value?_name fs.fsType
    have mountBy : (Tree.plain fs.mountBy.name).value? = some (.text fs.mountBy.name) :=
      Tree.value?_name fs.mountBy
    cases uuid : fs.uuid <;> cases mountpoints : fs.mountpoints <;>
      cases options : fs.fstabOptions <;>
      simp [attributeEntries, attributeValues, Tree.value?_ofString, Tree.value?_strings, uuid,
        mountpoints, options, fsType, mountBy]

/-- No attribute is there twice, and none is called like the other fields of a device. -/
theorem nodup_attributeEntries (a : Attributes) :
    ("sid" :: "userdata" :: "kind" :: (attributeEntries a).map Prod.fst).Nodup := by
  cases a with
  | filesystem fs =>
    cases uuid : fs.uuid <;> cases mountpoints : fs.mountpoints <;>
      cases options : fs.fstabOptions <;>
      simp [attributeEntries, uuid, mountpoints, options]
  | _ => simp [attributeEntries]

/-- The values have the keys of their entries. -/
theorem nodup_attributeValues (h : a.InRange) (kind : Value) :
    ((("kind", kind) :: attributeValues a).map Prod.fst).Nodup := by
  rw [List.map_cons, keys_of_mapM (values_attributeEntries h)]
  obtain ⟨_, keys⟩ := List.nodup_cons.1 (nodup_attributeEntries a)
  exact (List.nodup_cons.1 keys).2

theorem disk?_values {d : Disk} (h : (Attributes.disk d).InRange) (kind : Value) :
    disk? (("kind", kind) :: attributeValues (.disk d)) = some d := by
  have ⟨size, sector⟩ := h
  obtain ⟨fields, read, found⟩ := fields?_spec
    ["name", "size-k", "sector-size", "rotational", "transport"] false
    (("kind", kind) :: attributeValues (.disk d)) (nodup_attributeValues h _) nofun
  have transport : (Value.text d.transport.name).choice? = some d.transport :=
    Value.choice?_name d.transport
  simp only [attributeValues, List.forall_mem_cons] at read found
  simp [disk?, read, required?, optional?, found, attributeValues, List.lookup_cons, Value.text?,
    Value.word?, Value.natural?, Value.bool?, size, sector, transport]

theorem partitionTable?_values (t : PartitionTable) (kind : Value) :
    partitionTable? (("kind", kind) :: attributeValues (.partitionTable t)) = some t := by
  obtain ⟨fields, read, found⟩ := fields?_spec ["pt-type"] false
    (("kind", kind) :: attributeValues (.partitionTable t))
    (nodup_attributeValues (a := .partitionTable t) trivial _) nofun
  have ptType : (Value.text t.ptType.name).choice? = some t.ptType := Value.choice?_name t.ptType
  simp only [attributeValues, List.forall_mem_cons] at read found
  simp [partitionTable?, read, required?, found, attributeValues, List.lookup_cons, ptType]

theorem partition?_values {p : Partition} (h : (Attributes.partition p).InRange) (kind : Value) :
    partition? (("kind", kind) :: attributeValues (.partition p)) = some p := by
  have ⟨region, id⟩ := h
  obtain ⟨fields, read, found⟩ := fields?_spec
    ["name", "partition-type", "region", "id", "boot"] false
    (("kind", kind) :: attributeValues (.partition p)) (nodup_attributeValues h _) nofun
  have type : (Value.text p.type.name).choice? = some p.type := Value.choice?_name p.type
  simp only [attributeValues, List.forall_mem_cons] at read found
  simp [partition?, read, required?, optional?, found, attributeValues, List.lookup_cons,
    Value.text?, Value.natural?, Value.bool?, Region.ofValue?_toValue region, id, type]

/-- What is found where the values of a filesystem are looked up; nothing is where it is empty. -/
theorem lookup_filesystem (fs : Filesystem) (kind : Value) :
    let entries := ("kind", kind) :: attributeValues (.filesystem fs)
    entries.lookup "fs-type" = some (.text fs.fsType.name) ∧
    entries.lookup "label" = some (.text fs.label) ∧
    entries.lookup "uuid" = fs.uuid.map (.text ·.text) ∧
    entries.lookup "mountpoints" =
      (if fs.mountpoints.isEmpty then none else some (.list (fs.mountpoints.map .text))) ∧
    entries.lookup "mount-by" = some (.text fs.mountBy.name) ∧
    entries.lookup "fstab-options" =
      (if fs.fstabOptions.isEmpty then none else some (.list (fs.fstabOptions.map .text))) := by
  cases uuid : fs.uuid <;> cases mountpoints : fs.mountpoints <;>
    cases options : fs.fstabOptions <;>
    simp [attributeValues, List.lookup_cons, uuid, mountpoints, options]

theorem filesystem?_values {fs : Filesystem} (h : (Attributes.filesystem fs).InRange)
    (kind : Value) :
    filesystem? (("kind", kind) :: attributeValues (.filesystem fs)) = some fs := by
  obtain ⟨fields, read, found⟩ := fields?_spec
    ["fs-type", "label", "uuid", "mountpoints", "mount-by", "fstab-options"] false
    (("kind", kind) :: attributeValues (.filesystem fs)) (nodup_attributeValues h _) nofun
  simp only [List.forall_mem_cons, lookup_filesystem fs kind] at found
  obtain ⟨fsType, label, uuid, mountpoints, mountBy, options, _⟩ := found
  have text_read : ∀ s, (Value.text s).text? = some s := fun _ => rfl
  have fsType_read : (Value.text fs.fsType.name).choice? = some fs.fsType :=
    Value.choice?_name fs.fsType
  have mountBy_read : (Value.text fs.mountBy.name).choice? = some fs.mountBy :=
    Value.choice?_name fs.mountBy
  have uuid_read : optional? "uuid" (Value.option? fun v => v.text?.bind Uuid.ofText?) none
      fields = some fs.uuid := by
    cases chosen : fs.uuid with
    | none =>
      rw [chosen] at uuid
      exact optional?_missing uuid
    | some u =>
      rw [chosen] at uuid
      simp [optional?_found uuid, Value.option?, text_read, Uuid.ofText?_text (h u chosen)]
  have strings_read : ∀ {key texts}, fields.lookup key =
      (if texts.isEmpty then none else some (.list (texts.map .text))) →
      optional? key Value.strings? [] fields = some texts := by
    intro key texts looked
    cases texts with
    | nil => exact optional?_missing looked
    | cons s rest => exact (optional?_found looked).trans (Value.strings?_list (s :: rest))
  simp [filesystem?, read, required?_found fsType, optional?_found label, uuid_read,
    strings_read mountpoints, strings_read options, optional?_found mountBy, fsType_read,
    mountBy_read, text_read]

/-- The attributes of a device read back from their values, beside the word for its kind. -/
theorem attributes?_values (h : a.InRange) :
    attributes? (("kind", .text a.kind.name) :: attributeValues a) = some a := by
  have key : (Value.text a.kind.name).key? = some a.kind := Value.key?_name a.kind
  obtain ⟨fields, read, found⟩ := fields?_spec ["kind"] false
    (("kind", .text a.kind.name) :: attributeValues a) (nodup_attributeValues h _) nofun
  have kind := found "kind" List.mem_cons_self
  rw [List.lookup_cons_self] at kind
  simp only [attributes?, read, required?_found kind, key, Option.bind_eq_bind, Option.bind_some]
  cases a with
  | disk d => simp [Attributes.kind, disk?_values h]
  | partitionTable t => simp [Attributes.kind, partitionTable?_values t]
  | partition p => simp [Attributes.kind, partition?_values h]
  | filesystem fs => simp [Attributes.kind, filesystem?_values h]

end Document

/-! ### User data -/

namespace Keyed

variable {α : Type} {values : Keyed α}

theorem insert_of_lt {key : String} {value : α} (h : ∀ e ∈ values, e.1 < key) :
    insert key value values = values ++ [(key, value)] := by
  induction values with
  | nil => rfl
  | cons e rest ih =>
    obtain ⟨lt, others⟩ := List.forall_mem_cons.1 h
    obtain ⟨k, v⟩ := e
    have ne : key ≠ k := by
      rintro rfl
      exact String.lt_irrefl _ lt
    rw [insert, if_neg (String.lt_asymm lt), if_neg ne, ih others]
    rfl

/-- Pairs that come by ascending key stay as they are. -/
theorem ofPairs_of_ascending (h : values.Pairwise fun a b => a.1 < b.1) :
    ofPairs values = values := by
  -- with some pairs inserted already, each further one goes to the end
  have step : ∀ (rest done : Keyed α), (done ++ rest).Pairwise (fun a b => a.1 < b.1) →
      rest.foldl (fun values e => insert e.1 e.2 values) done = done ++ rest := by
    intro rest
    induction rest with
    | nil => exact fun done _ => (List.append_nil done).symm
    | cons e rest ih =>
      intro done h
      have below : ∀ d ∈ done, d.1 < e.1 := fun d hd =>
        (List.pairwise_append.1 h).2.2 d hd e List.mem_cons_self
      rw [List.foldl_cons, insert_of_lt below]
      have joined : done ++ [(e.1, e.2)] ++ rest = done ++ e :: rest := by simp
      rw [ih _ (joined ▸ h), joined]
  exact step values [] h

end Keyed

/-! ### Devices -/

/-- A document can hold the device: its numbers are in the range of their fields, and its user data
comes by ascending key. -/
structure Device.Storable (d : Device) : Prop where
  sid : d.sid ≤ maxWord
  attributes : d.attributes.InRange
  userData : d.userData.Pairwise fun a b => a.1 < b.1

namespace Document

open Yaml

theorem entries?_record (entries : List (String × Tree)) :
    (Tree.record entries).entries? = some entries :=
  mapM_map_eq_self fun _ _ => rfl

/-- The tree of user data. -/
def userDataTree (values : UserData) : Tree :=
  .map none (values.map fun (k, v) => (.ofString k, .ofString v))

theorem userData?_userDataTree {values : UserData} (h : values.Pairwise fun a b => a.1 < b.1) :
    userData? (userDataTree values) = some values := by
  let written := values.map fun e : String × String => (e.1, Tree.ofString e.2)
  let read := fun e : String × Tree => e.2.string?.bind fun s => some (e.1, s)
  have entries : (userDataTree values).entries? = some written := mapM_map_eq fun _ _ => rfl
  have pairs : written.mapM read = some values := mapM_map_eq_self fun _ _ => rfl
  rw [userData?, entries]
  change (written.mapM read).bind (fun pairs => some (Keyed.ofPairs pairs)) = some values
  rw [pairs, Option.bind_some, Keyed.ofPairs_of_ascending h]

/-- The entries for user data, which is left out where there is none. -/
def userDataEntries (values : UserData) : List (String × Tree) :=
  if values.isEmpty then [] else [("userdata", userDataTree values)]

/-- The entries for the kind and the attributes of a device. -/
def kindEntries (a : Attributes) : List (String × Tree) :=
  ("kind", .plain a.kind.name) :: attributeEntries a

/-- The entries for a device. -/
def deviceEntries (d : Device) : List (String × Tree) :=
  ("sid", .number d.sid) :: (kindEntries d.attributes ++ userDataEntries d.userData)

theorem entries?_deviceTree (d : Device) : (deviceTree d).entries? = some (deviceEntries d) :=
  entries?_record (deviceEntries d)

theorem nodup_deviceEntries (d : Device) : ((deviceEntries d).map Prod.fst).Nodup := by
  have keys := nodup_attributeEntries d.attributes
  -- user data comes last, but its key is among those that no attribute has
  cases none : d.userData.isEmpty with
  | true =>
    simp only [deviceEntries, userDataEntries, none, if_true, List.append_nil]
    exact keys.sublist ((List.sublist_cons_self ..).cons_cons _)
  | false =>
    simp only [deviceEntries, userDataEntries, none, Bool.false_eq_true, if_false, List.map_cons,
      List.map_append, List.map_nil]
    exact keys.perm ((List.perm_append_singleton ..).symm.cons _)

section

variable {a : Attributes} {e : String × Tree}

theorem apart_of_mem_kindEntries (he : e ∈ kindEntries a) : e.1 ≠ "sid" ∧ e.1 ≠ "userdata" := by
  obtain ⟨sid, keys⟩ := List.nodup_cons.1 (nodup_attributeEntries a)
  obtain ⟨userData, _⟩ := List.nodup_cons.1 keys
  have key : e.1 ∈ "kind" :: (attributeEntries a).map Prod.fst :=
    List.mem_map_of_mem (f := Prod.fst) he
  exact ⟨fun same => sid (List.mem_cons_of_mem _ (same ▸ key)), fun same => userData (same ▸ key)⟩

theorem values_kindEntries (h : a.InRange) :
    ((kindEntries a).mapM fun e => do return (e.1, ← e.2.value?)) =
      some (("kind", .text a.kind.name) :: attributeValues a) := by
  have kind : (Tree.plain a.kind.name).value? = some (.text a.kind.name) := Tree.value?_name a.kind
  rw [kindEntries, List.mapM_cons, values_attributeEntries h, kind]
  rfl

end

/-- Beside the sid and the user data there are the kind and the attributes. -/
theorem filter_deviceEntries (d : Device) :
    ((deviceEntries d).filter fun e => e.1 != "sid" && e.1 != "userdata") =
      kindEntries d.attributes := by
  have kept : (kindEntries d.attributes).filter (fun e => e.1 != "sid" && e.1 != "userdata") =
      kindEntries d.attributes := by
    refine List.filter_eq_self.2 fun e he => ?_
    simpa using apart_of_mem_kindEntries he
  cases none : d.userData.isEmpty <;> simp [deviceEntries, userDataEntries, none, kept]

theorem lookup_userData (d : Device) : (deviceEntries d).lookup "userdata" =
    if d.userData.isEmpty then none else some (userDataTree d.userData) := by
  have absent : (kindEntries d.attributes).lookup "userdata" = none := by
    refine List.lookup_eq_none_iff.2 fun e he => ?_
    simpa using (apart_of_mem_kindEntries he).2.symm
  cases none : d.userData.isEmpty <;>
    simp [deviceEntries, userDataEntries, none, List.lookup_cons, List.lookup_append, absent]

theorem device?_deviceTree {d : Device} (h : d.Storable) : device? (deviceTree d) = some d := by
  obtain ⟨fields, read, found⟩ := fields?_spec ["sid", "userdata"] false (deviceEntries d)
    (nodup_deviceEntries d) nofun
  have sid := (found "sid" (by simp)).trans List.lookup_cons_self
  have userData := (found "userdata" (by simp)).trans (lookup_userData d)
  have userData_read : optional? "userdata" userData? [] fields = some d.userData := by
    cases none : d.userData.isEmpty with
    | true =>
      rw [none] at userData
      rw [optional?_missing userData, List.isEmpty_iff.1 none]
    | false =>
      rw [none] at userData
      rw [optional?_found userData, userData?_userDataTree h.userData]
  -- the attributes are read as values, from whatever is neither sid nor user data
  have values := values_kindEntries h.attributes
  rw [← filter_deviceEntries] at values
  simp only [device?, entries?_deviceTree, read, required?_found sid, Tree.natural?_number h.sid,
    userData_read, Option.bind_eq_bind, Option.bind_some] at values ⊢
  rw [values]
  simp [attributes?_values h.attributes]

theorem holder?_holderTree {h : Holder} (source : h.source ≤ maxWord)
    (target : h.target ≤ maxWord) : holder? (holderTree h) = some h := by
  obtain ⟨fields, read, found⟩ := fields?_spec ["source", "target", "kind"] true
    [("source", Tree.number h.source), ("target", .number h.target), ("kind", .plain h.kind.name)]
    (by simp) fun _ _ => id
  have kind : (Tree.plain h.kind.name).named? = some h.kind := Tree.named?_name h.kind
  simp only [List.forall_mem_cons] at found
  simp [holder?, holderTree, entries?_record, read, required?, found, List.lookup_cons,
    Tree.natural?_number, source, target, kind]

end Document

/-! ### Documents -/

/-- A document can hold its devices, and the sids in its holders are in range. -/
structure Document.Storable (d : Document) : Prop where
  devices : ∀ c ∈ d.devices, c.Storable
  holders : ∀ h ∈ d.holders, h.source ≤ maxWord ∧ h.target ≤ maxWord

namespace Document

open Yaml

theorem ofTree?_toTree {d : Document} (h : d.Storable) : ofTree? d.toTree = some d := by
  obtain ⟨fields, read, found⟩ := fields?_spec ["devices", "holders"] true
    [("devices", .seq none (d.devices.map deviceTree)),
      ("holders", Tree.seq none (d.holders.map holderTree))] (by simp) fun _ _ => id
  have devices : (d.devices.map deviceTree).mapM device? = some d.devices :=
    mapM_map_eq_self fun c hc => device?_deviceTree (h.devices c hc)
  have holders : (d.holders.map holderTree).mapM holder? = some d.holders :=
    mapM_map_eq_self fun k hk => holder?_holderTree (h.holders k hk).1 (h.holders k hk).2
  simp only [List.forall_mem_cons] at found
  simp [ofTree?, toTree, entries?_record, read, optional?, found, List.lookup_cons, Tree.items?,
    devices, holders]

end Document

end StoragePlan

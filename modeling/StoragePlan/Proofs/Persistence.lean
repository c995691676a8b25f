import Mathlib.Data.List.Permutation
import StoragePlan.Proofs.Fields
import StoragePlan.Proofs.Rearranging

/-!
# Saved devicegraphs

What is saved of a devicegraph is the text of its document. Where that text reads back as the tree
it was written for (`Yaml.Tree.Carried`), a checked devicegraph is loaded again from it as it was.
The devices of the document only have to be such that a document can hold them (`Device.Storable`):
their numbers are in the range of their fields, and their user data comes by key.

What is loaded does not depend on the order in which a document lists its devices and holders. It
lists them in its own order, devices by sid and holders by source and target.
-/

namespace StoragePlan

/-! ### Carrying trees -/

namespace Yaml

mutual

/-- Trees are equal if they are of one kind and their parts are equal. -/
def Tree.decEq : (a b : Tree) → Decidable (a = b)
  | .scalar tag quoted text, .scalar tag' quoted' text' =>
    decidable_of_iff (tag = tag' ∧ quoted = quoted' ∧ text = text') (by simp)
  | .seq tag items, .seq tag' items' =>
    have := itemsDecEq items items'
    decidable_of_iff (tag = tag' ∧ items = items') (by simp)
  | .map tag entries, .map tag' entries' =>
    have := entriesDecEq entries entries'
    decidable_of_iff (tag = tag' ∧ entries = entries') (by simp)
  | .scalar .., .seq .. | .scalar .., .map .. | .seq .., .scalar .. | .seq .., .map ..
  | .map .., .scalar .. | .map .., .seq .. => isFalse nofun

/-- The items of sequences are compared one by one. -/
def itemsDecEq : (a b : List Tree) → Decidable (a = b)
  | [], [] => isTrue rfl
  | a :: as, b :: bs =>
    have := a.decEq b
    have := itemsDecEq as bs
    decidable_of_iff (a = b ∧ as = bs) (by simp)
  | [], _ :: _ | _ :: _, [] => isFalse nofun

/-- The entries of mappings are compared one by one. -/
def entriesDecEq : (a b : List (Tree × Tree)) → Decidable (a = b)
  | [], [] => isTrue rfl
  | (k, v) :: as, (k', v') :: bs =>
    have := k.decEq k'
    have := v.decEq v'
    have := entriesDecEq as bs
    decidable_of_iff ((k = k' ∧ v = v') ∧ as = bs) (by simp)
  | [], _ :: _ | _ :: _, [] => isFalse nofun

end

instance : DecidableEq Tree := Tree.decEq

/-- The text of the tree reads back as the tree. -/
def Tree.Carried (t : Tree) : Prop := Tree.ofText? t.text = some t

instance (t : Tree) : Decidable t.Carried := inferInstanceAs (Decidable (_ = _))

/-- A text is known by its bytes. -/
theorem eq_ofList_of_bytes {text : String} {cs : List Char}
    (h : text.toByteArray.data.toList = cs.flatMap String.utf8EncodeChar) :
    text = String.ofList cs := by
  apply String.toByteArray_inj.1
  rw [String.toByteArray_ofList, List.utf8Encode]
  apply ByteArray.ext
  rw [List.data_toByteArray, ← h, Array.toArray_toList]

end Yaml

namespace Document

variable {d : Document}

/-- A document reads back from its text if its tree does. -/
theorem ofText?_text (storable : d.Storable) (carried : d.toTree.Carried) :
    ofText? d.text = some d := by
  rw [ofText?, text, carried]
  exact ofTree?_toTree storable

end Document

namespace Devicegraph

open Document

variable {g h : Devicegraph}

/-- Devicegraphs are the same if they show one document. -/
theorem same_iff : g.same h = true ↔ g.document = h.document := by
  simp [same, document]

/-- Devicegraphs that are the same have the same devices and the same holders. -/
theorem shown_of_same (same : g.same h = true) :
    g.devices = h.devices ∧ g.holders = h.holders ∧ g.same h = true := by
  have shown := same_iff.1 same
  exact ⟨congrArg Document.devices shown, congrArg Document.holders shown, same⟩

/-- The holders join devices, so a document can hold them if it can hold the devices. -/
theorem storable_document (law : g.Lawful) (storable : ∀ d ∈ g.devices, d.Storable) :
    g.document.Storable := by
  refine ⟨storable, fun k hk => ?_⟩
  have sid_le : ∀ x ∈ g.devices.map Device.sid, x ≤ maxWord := by
    intro x hx
    obtain ⟨d, hd, rfl⟩ := List.mem_map.1 hx
    exact (storable d hd).sid
  obtain ⟨source, target⟩ := law.coherent_document.anchored k hk
  exact ⟨sid_le _ source, sid_le _ target⟩

end Devicegraph

namespace Edit

open Devicegraph Document

variable {s s' : Editor} {g : Devicegraph} {d e : Document}

/-- A checked devicegraph is loaded from its document. -/
theorem load_document (empty : s.graph = .empty) (valid : g.check = .ok ()) :
    ∃ s', load g.document s = .ok () s' ∧ g.same s'.graph = true ∧
      s'.supply = s.supply.reserveAll g.devices := by
  have law := Devicegraph.check_eq_ok.1 valid
  have rearranged := law.rearranged_document
  obtain ⟨possible, effect⟩ := load_spec g.document empty
  obtain ⟨s', loaded⟩ := possible.2 ⟨law.coherent_document, rearranged.check_iff.1 valid⟩
  obtain ⟨graph, supply⟩ := effect s' loaded
  exact ⟨s', loaded, same_iff.2 (graph ▸ rearranged.document_eq), supply⟩

/-- What is loaded lists what the document lists, but in order. -/
theorem document_of_load (empty : s.graph = .empty) (loaded : load d s = .ok () s') :
    s'.graph.document.Reordered d ∧ s'.graph.document.Ordered := by
  obtain ⟨possible, effect⟩ := load_spec d empty
  have coherent := (possible.1 ⟨s', loaded⟩).1
  rw [(effect s' loaded).1]
  have listed := coherent.reordered
  exact ⟨listed, ordered_document (listed.symm.coherent coherent).single⟩

/-- Loading a document in another order gives the same devicegraph, if any. -/
theorem load_reordered (empty : s.graph = .empty) (same : d.Reordered e) :
    ((∃ s', load d s = .ok () s') ↔ ∃ s', load e s = .ok () s') ∧
    ∀ t t', load d s = .ok () t → load e s = .ok () t' → t.graph.same t'.graph = true := by
  obtain ⟨possible, effect⟩ := load_spec d empty
  obtain ⟨possible', effect'⟩ := load_spec e empty
  refine ⟨?_, fun t t' loaded loaded' => ?_⟩
  · rw [possible, possible']
    constructor
    · rintro ⟨coherent, valid⟩
      exact ⟨same.coherent coherent, (same.rearranged coherent).check_iff.1 valid⟩
    · rintro ⟨coherent, valid⟩
      exact ⟨same.symm.coherent coherent, (same.symm.rearranged coherent).check_iff.1 valid⟩
  · have coherent := (possible.1 ⟨t, loaded⟩).1
    rw [same_iff, (effect t loaded).1, (effect' t' loaded').1]
    exact (same.rearranged coherent).document_eq

/-- **Saving and loading.** A checked devicegraph is loaded from its text as it was, with the same
devices and the same holders, and the sids of its devices are reserved. Whatever text a devicegraph
is loaded from, it shows the devices and holders of the text in order; and in whatever order a text
lists them, it is accepted or not, with the same devicegraph. -/
theorem loadText_saved :
    (∀ {g : Devicegraph} {s : Editor}, s.graph = .empty → g.check = .ok () →
      (∀ d ∈ g.devices, d.Storable) → g.document.toTree.Carried →
      ∃ s', loadText g.document.text s = .ok () s' ∧
        (g.devices = s'.graph.devices ∧ g.holders = s'.graph.holders ∧ g.same s'.graph = true) ∧
        ∀ d ∈ g.devices, min (d.sid + 1) maxWord ≤ s'.supply.next) ∧
    (∀ {text : String} {d : Document} {s s' : Editor}, s.graph = .empty →
      Document.ofText? text = some d → loadText text s = .ok () s' →
      s'.graph.document.Reordered d ∧ s'.graph.document.Ordered) ∧
    ∀ {text text' : String} {d e : Document} {s : Editor}, s.graph = .empty →
      Document.ofText? text = some d → Document.ofText? text' = some e → d.Reordered e →
      ((∃ s', loadText text s = .ok () s') ↔ ∃ s', loadText text' s = .ok () s') ∧
      ∀ t t', loadText text s = .ok () t → loadText text' s = .ok () t' →
        t.graph.devices = t'.graph.devices ∧ t.graph.holders = t'.graph.holders ∧
        t.graph.same t'.graph = true := by
  refine ⟨?_, ?_, ?_⟩
  · intro g s empty valid storable carried
    have law := Devicegraph.check_eq_ok.1 valid
    rw [loadText_of_ofText? (ofText?_text (storable_document law storable) carried)]
    obtain ⟨s', loaded, same, supply⟩ := load_document empty valid
    refine ⟨s', loaded, shown_of_same same, fun d hd => ?_⟩
    rw [supply]
    exact SidSupply.le_reserveAll hd
  · intro text d s s' empty read loaded
    rw [loadText_of_ofText? read] at loaded
    exact document_of_load empty loaded
  · intro text text' d e s empty read read' same
    rw [loadText_of_ofText? read, loadText_of_ofText? read']
    obtain ⟨possible, equal⟩ := load_reordered empty same
    exact ⟨possible, fun t t' loaded loaded' => shown_of_same (equal t t' loaded loaded')⟩

end Edit

/-! ### Filesystems on disks -/

namespace Document

/-- A filesystem mounted twice, on a disk of the largest size. -/
def mountedTwice : Document where
  devices := [⟨1, .disk { name := "a", sizeK := maxWord }, [("k", "1")]⟩,
    ⟨maxWord, .filesystem { fsType := .xfs, uuid := some ⟨1⟩, mountpoints := ["/", "/"] }, []⟩]
  holders := [⟨1, maxWord, .user⟩]

theorem storable_mountedTwice : ∀ d ∈ mountedTwice.devices, d.Storable := by
  refine List.forall_mem_cons.2 ⟨⟨by decide, ⟨by decide, by decide⟩, by decide⟩,
    List.forall_mem_cons.2 ⟨⟨by decide, fun u hu => ?_, by decide⟩, nofun⟩⟩
  obtain rfl := Option.some.inj hu
  exact (by decide : 1 < 2 ^ 128)

/-- The characters of its text. -/
def mountedTwiceChars : List Char :=
  List.flatMap String.toList [
    "devices:\n", "- sid: 1\n", "  kind: disk\n", "  name: a\n",
    "  size-k: 18446744073709551615\n", "  sector-size: 512\n", "  rotational: false\n",
    "  transport: unknown\n", "  userdata:\n", "    k: '1'\n",
    "- sid: 18446744073709551615\n", "  kind: filesystem\n", "  fs-type: xfs\n",
    "  label: ''\n", "  uuid: 00000000-0000-0000-", "0000-000000000001\n", "  mountpoints:\n",
    "  - /\n", "  - /\n", "  mount-by: device\n",
    "holders:\n", "- source: 1\n", "  target: 18446744073709551615\n", "  kind: user\n"]

set_option maxRecDepth 100000 in
/-- The bytes are compared, since it takes the kernel long to read characters off a long text. -/
theorem text_mountedTwice : mountedTwice.toTree.text = String.ofList mountedTwiceChars := by
  apply Yaml.eq_ofList_of_bytes
  decide +kernel

set_option maxRecDepth 100000 in
theorem carried_mountedTwice : mountedTwice.toTree.Carried := by
  rw [Yaml.Tree.Carried, text_mountedTwice, Yaml.Tree.ofText?, Yaml.Written.ofText?,
    Yaml.Token.ofText?, String.toList_ofList]
  decide +kernel

/-- Two disks with filesystems, the first one given first or last. -/
def onTwoDisks (ascending : Bool) : Document :=
  let first : List Device :=
    [⟨1, .disk { name := "a" }, []⟩, ⟨3, .filesystem { fsType := .xfs }, []⟩]
  let second : List Device :=
    [⟨2, .disk { name := "b" }, []⟩, ⟨4, .filesystem { fsType := .swap }, []⟩]
  if ascending then ⟨first ++ second, [⟨1, 3, .user⟩, ⟨2, 4, .user⟩]⟩
  else ⟨second ++ first, [⟨2, 4, .user⟩, ⟨1, 3, .user⟩]⟩

/-- The characters of a text for them. -/
def onTwoDisksChars (ascending : Bool) : List Char :=
  let first := "- sid: 1\n  kind: disk\n  name: a\n- sid: 3\n  kind: filesystem\n  fs-type: xfs\n"
  let second := "- sid: 2\n  kind: disk\n  name: b\n- sid: 4\n  kind: filesystem\n  fs-type: swap\n"
  let holder := "- source: 1\n  target: 3\n  kind: user\n"
  let holder' := "- source: 2\n  target: 4\n  kind: user\n"
  List.flatMap String.toList <|
    if ascending then ["devices:\n", first, second, "holders:\n", holder, holder']
    else ["devices:\n", second, first, "holders:\n", holder', holder]

set_option maxRecDepth 100000 in
theorem ofText?_onTwoDisks (ascending : Bool) :
    ofText? (String.ofList (onTwoDisksChars ascending)) = some (onTwoDisks ascending) := by
  rw [ofText?, Yaml.Tree.ofText?, Yaml.Written.ofText?, Yaml.Token.ofText?, String.toList_ofList]
  cases ascending <;> decide +kernel

end Document

namespace Edit

open Document

theorem loadText_saved_mountedTwice :
    (mountedTwice.graph.check = .ok () ∧
      ∃ s', loadText mountedTwice.graph.document.text {} = .ok () s' ∧
        (mountedTwice.graph.devices = s'.graph.devices ∧
          mountedTwice.graph.holders = s'.graph.holders ∧
          mountedTwice.graph.same s'.graph = true) ∧
        ∀ d ∈ mountedTwice.graph.devices, min (d.sid + 1) maxWord ≤ s'.supply.next) ∧
    ∃ t t', loadText (String.ofList (onTwoDisksChars true)) {} = .ok () t ∧
      loadText (String.ofList (onTwoDisksChars false)) {} = .ok () t' ∧
      (t'.graph.document.Reordered (onTwoDisks false) ∧ t'.graph.document.Ordered) ∧
      t.graph.devices = t'.graph.devices ∧ t.graph.holders = t'.graph.holders ∧
      t.graph.same t'.graph = true := by
  obtain ⟨saved, ordered, reordered⟩ := loadText_saved
  refine ⟨?_, ?_⟩
  · have valid : mountedTwice.graph.check = .ok () := by cbv
    have shown : mountedTwice.graph.document = mountedTwice := by cbv
    have devices : mountedTwice.graph.devices = mountedTwice.devices :=
      congrArg Document.devices shown
    have storable : ∀ d ∈ mountedTwice.graph.devices, d.Storable := devices ▸ storable_mountedTwice
    refine ⟨valid, saved rfl valid storable ?_⟩
    rw [shown]
    exact carried_mountedTwice
  · have coherent : (onTwoDisks true).Coherent := ⟨by decide, by decide, by decide⟩
    have valid : (onTwoDisks true).graph.check = .ok () := by cbv
    have same : (onTwoDisks true).Reordered (onTwoDisks false) := ⟨by decide, by decide⟩
    obtain ⟨t, loaded⟩ := (load_spec (onTwoDisks true) (s := {}) rfl).1.2 ⟨coherent, valid⟩
    rw [← loadText_of_ofText? (ofText?_onTwoDisks true)] at loaded
    obtain ⟨possible, equal⟩ :=
      reordered (s := {}) rfl (ofText?_onTwoDisks true) (ofText?_onTwoDisks false) same
    obtain ⟨t', loaded'⟩ := possible.1 ⟨t, loaded⟩
    exact ⟨t, t', loaded, loaded', ordered rfl (ofText?_onTwoDisks false) loaded',
      equal t t' loaded loaded'⟩

end Edit

end StoragePlan

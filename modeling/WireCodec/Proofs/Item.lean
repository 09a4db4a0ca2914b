import WireCodec.Item
import WireCodec.Proofs.Canonical
import WireCodec.Proofs.EventGuid.RoundTrip
import WireCodec.Proofs.Json.Admission
import WireCodec.Proofs.Json.Rearrangement
import WireCodec.Proofs.Shape

/-
**Values inside of documents.**

Five of the types have a decoder for JSON values.  A value of such a type may stand in an array or
under a key of an object, next to values of other types: it is a text or an object of its own, never
null and never the truth value that makes an object a number, so neither the value nor what holds it
is taken for something else.

Main definitions:

* `Item.wireType?`: the type whose decoder reads an item;
* `WireItem`: an item with such a type;
* `WireItem.arrayDoc`, `WireItem.objectDoc`: the documents that hold items.

Main results:

* `WireItem.decode_toDoc`: the canonical document of an item is read as the item;
* `WireItem.embedding_lossless`: **items inside of arrays and objects are read back**.
-/

set_option relaxedAutoImplicit false
set_option autoImplicit false

namespace WireCodec

open Json (Value Doc Reading)

/-- The type whose decoder reads an item.  Bytes that are always base sixteen have none. -/
def Item.wireType? : Item → Option WireType
  | .u64 _ => some .u64
  | .hex _ => none
  | .bytes _ => some .bytes
  | .address _ => some .address
  | .hash _ => some .hash
  | .guid _ => some .guid

/-- An item that has a decoder for JSON values. -/
structure WireItem where
  item : Item
  type : WireType
  wireType?_item : item.wireType? = some type
  deriving DecidableEq, Repr

namespace WireItem

/-- The canonical document. -/
def toDoc (i : WireItem) : Doc := i.item.toDoc

/-- The array of items. -/
def arrayDoc (items : List WireItem) : Doc := .array (items.map toDoc)

/-- The members that hold items under keys. -/
def members (fields : List (Text × WireItem)) : List (Text × Doc) :=
  fields.map fun f => (f.1, f.2.toDoc)

/-- The object with items under keys. -/
def objectDoc (fields : List (Text × WireItem)) : Doc := .object (members fields)

/-! ### One item -/

/-- **The canonical document of an item is read as the item.** -/
theorem decode_toDoc (i : WireItem) :
    i.type.decode (.ofDoc .lossless i.toDoc) = .ofExcept (.ok i.item) := by
  obtain ⟨item, type, htype⟩ := i
  cases item with
  | u64 u =>
      cases htype
      exact congrArg (fun x => Logged.ofExcept (x.map Item.u64)) u.ofValue_toDoc
  | hex h => cases htype
  | bytes b =>
      cases htype
      exact congrArg (fun x => Item.bytes <$> x) b.ofValue_toDoc
  | address a =>
      cases htype
      exact congrArg (fun x => Logged.ofExcept (x.map Item.address)) a.ofValue_toDoc
  | hash h =>
      cases htype
      exact congrArg (fun x => Logged.ofExcept (x.map Item.hash)) h.ofValue_toDoc
  | guid g =>
      cases htype
      exact congrArg (fun x => Logged.ofExcept (x.map Item.guid)) g.ofValue_toDoc

/-- The document of an item is a text or an object. -/
theorem shape_toDoc (i : WireItem) : i.toDoc.shape = .text ∨ i.toDoc.shape = .object := by
  obtain ⟨item, type, htype⟩ := i
  cases item with
  | hex h => cases htype
  | u64 | bytes | address | hash => exact .inl rfl
  | guid => exact .inr rfl

theorem toDoc_ne (i : WireItem) {d : Doc} (htext : d.shape ≠ .text) (hobject : d.shape ≠ .object) :
    i.toDoc ≠ d := by
  rintro rfl
  rcases i.shape_toDoc with hshape | hshape
  · exact htext hshape
  · exact hobject hshape

theorem isWritable_toDoc {r : Reading} (i : WireItem) : i.toDoc.IsWritable r.admits := by
  obtain ⟨item, type, htype⟩ := i
  cases item with
  | hex h => cases htype
  | u64 | bytes | address | hash => exact trivial
  | guid g => exact g.isWritable_toDoc

/-! ### Arrays -/

theorem isWritable_arrayDoc (items : List WireItem) :
    (arrayDoc items).IsWritable Reading.lossless.admits := by
  refine Json.Doc.areWritable_iff.2 fun d hd => ?_
  obtain ⟨i, -, rfl⟩ := List.mem_map.1 hd
  exact i.isWritable_toDoc

/-- The value of an array holds the values of the items, in their places. -/
theorem ofDoc_arrayDoc (items : List WireItem) :
    Value.ofDoc .lossless (arrayDoc items) =
      .array (items.map fun i => .ofDoc .lossless i.toDoc) := by
  rw [arrayDoc, Value.ofDoc, Value.ofItems_eq_map, List.map_map]
  rfl

/-! ### Objects -/

section

variable {fields written : List (Text × WireItem)}

theorem mem_members_iff {m : Text × Doc} :
    m ∈ members fields ↔ ∃ f ∈ fields, (f.1, f.2.toDoc) = m :=
  List.mem_map

theorem keys_members (fields : List (Text × WireItem)) :
    (members fields).map Prod.fst = fields.map Prod.fst := by
  rw [members, List.map_map]
  rfl

/-- The keys may be written in any order. -/
theorem nodup_keys_of_perm (hnodup : (fields.map Prod.fst).Nodup) (hperm : written.Perm fields) :
    ((members written).map Prod.fst).Nodup := by
  rw [keys_members]
  exact (hperm.map Prod.fst).nodup_iff.2 hnodup

theorem isWritable_objectDoc (hnodup : ((members fields).map Prod.fst).Nodup) :
    (objectDoc fields).IsWritable Reading.lossless.admits := by
  refine (Json.Doc.isWritable_object_iff hnodup).2 fun m hm => ?_
  obtain ⟨f, -, rfl⟩ := mem_members_iff.1 hm
  exact f.2.isWritable_toDoc

/-- No item makes the object a number. -/
theorem isObject_objectDoc (hparent : ∀ f ∈ fields, f.1 ≠ Value.parentKey) :
    (Value.ofDoc .lossless (objectDoc fields)).isObject = true := by
  refine Value.isObject_ofDoc_object_iff.2 (Json.Doc.not_poses_of_unsaid ?_ ?_)
  · intro hsaid
    obtain ⟨f, -, hf⟩ := mem_members_iff.1 hsaid
    have hbool : f.2.toDoc ≠ .bool true := f.2.toDoc_ne nofun nofun
    exact hbool (Prod.mk.inj hf).2
  · intro m hm
    obtain ⟨f, hf, rfl⟩ := mem_members_iff.1 hm
    exact hparent f hf

/-- The item under a key is read back. -/
theorem readField_objectDoc {f : Text × WireItem}
    (hnodup : ((members fields).map Prod.fst).Nodup) (hparent : f.1 ≠ Value.parentKey)
    (hf : f ∈ fields) :
    Logged.readField (.ofDoc .lossless (objectDoc fields)) f.1 f.2.type.decode =
      .ofExcept (.ok f.2.item) := by
  have hlast : Json.lastMember? f.1 (members fields) = some f.2.toDoc :=
    (Json.agrees_of_nodup hnodup f.1).lastMember?_eq_some_iff.2 (mem_members_iff.2 ⟨f, hf, rfl⟩)
  have hnull : f.2.toDoc ≠ .null := f.2.toDoc_ne nofun nofun
  rw [objectDoc, Logged.readField_of_lastMember? hparent hlast hnull, decode_toDoc]
  rfl

end

/-- **Items inside of arrays and objects are read back.**  An array is read as an array of the same
length, and each of its values is decoded, by the decoder of the item's type, to the item in its
place.  An object with different keys, none of which is that of a parent, is read as an object,
and each key decodes to the item under it, whatever the order in which the members are written. -/
theorem embedding_lossless (reason : DecodeReason) (typeName : Text) :
    (∀ items : List WireItem, ∃ values,
      readJson (arrayDoc items).print reason typeName = .ok (.array values) ∧
      values.length = items.length ∧
      ∀ (place : Nat) (i : WireItem), items[place]? = some i →
        ∃ v, values[place]? = some v ∧ i.type.decode v = .ofExcept (.ok i.item)) ∧
    ∀ fields written : List (Text × WireItem), (fields.map Prod.fst).Nodup →
      (∀ f ∈ fields, f.1 ≠ Value.parentKey) → written.Perm fields →
      ∃ object, readJson (objectDoc written).print reason typeName = .ok object ∧
        object.isObject = true ∧
        ∀ f ∈ fields, Logged.readField object f.1 f.2.type.decode = .ofExcept (.ok f.2.item) := by
  constructor
  · intro items
    have hread : readJson (arrayDoc items).print reason typeName = .ok _ :=
      readJson_print (isWritable_arrayDoc items)
    rw [ofDoc_arrayDoc] at hread
    refine ⟨_, hread, List.length_map _, fun place i hi => ⟨_, ?_, i.decode_toDoc⟩⟩
    rw [List.getElem?_map, hi, Option.map_some]
  · intro fields written hnodup hparent hperm
    have hkeys := nodup_keys_of_perm hnodup hperm
    refine ⟨_, readJson_print (isWritable_objectDoc hkeys), isObject_objectDoc fun f hf => ?_,
      fun f hf => readField_objectDoc hkeys (hparent f hf) (hperm.mem_iff.2 hf)⟩
    exact hparent f (hperm.mem_iff.1 hf)

/-- The greatest number, a text that needs escapes and no bytes, under keys that hide a method, say
that the object is a number, and are written in the order of their numbers. -/
theorem embedding_lossless_hidden :
    let number : WireItem := ⟨.u64 ⟨maxU64, Nat.le_refl _⟩, .u64, rfl⟩
    let hash : WireItem := ⟨.hash ⟨[0xD800, Json.quote]⟩, .hash, rfl⟩
    let bytes : WireItem := ⟨.bytes ⟨[]⟩, .bytes, rfl⟩
    let fields : List (Text × WireItem) :=
      [("toString", number), ("10", hash), (Value.tokenKey, bytes), ("2", bytes)]
    let written : List (Text × WireItem) :=
      [("2", bytes), ("10", hash), ("toString", number), (Value.tokenKey, bytes)]
    (∃ values,
      readJson (arrayDoc [number, hash, bytes]).print .malformedObject "value" =
        .ok (.array values) ∧ values.length = 3 ∧
      ∃ v, values[1]? = some v ∧ hash.type.decode v = .ofExcept (.ok hash.item)) ∧
    (fields.map Prod.fst).Nodup ∧ (∀ f ∈ fields, f.1 ≠ Value.parentKey) ∧ written.Perm fields ∧
    ∃ object, readJson (objectDoc written).print .malformedObject "value" = .ok object ∧
      object.isObject = true ∧
      ∀ f ∈ fields, Logged.readField object f.1 f.2.type.decode = .ofExcept (.ok f.2.item) := by
  intro number hash bytes fields written
  obtain ⟨harray, hobject⟩ := embedding_lossless .malformedObject "value"
  obtain ⟨values, hread, hlength, hvalues⟩ := harray [number, hash, bytes]
  have hnodup : (fields.map Prod.fst).Nodup := by decide
  have hparent : ∀ f ∈ fields, f.1 ≠ Value.parentKey := by decide
  have hperm : written.Perm fields := by decide
  exact ⟨⟨values, hread, hlength, hvalues 1 hash rfl⟩, hnodup, hparent, hperm,
    hobject fields written hnodup hparent hperm⟩

end WireItem

end WireCodec

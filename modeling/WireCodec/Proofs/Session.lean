import WireCodec.Proofs.Hash
import WireCodec.Proofs.Item
import WireCodec.Proofs.Blob.RoundTrip
import WireCodec.Proofs.U64.Agreement
import WireCodec.Proofs.U64.LowerBound
import WireCodec.Session

/-
**Whatever a session makes is in range and is read back.**

A session makes its items from arbitrary texts, bytes, numbers and documents and from each other.
Each item was made by a step, and all ways to make one check it, with one exception: the reader of
literals has no lower bound.  For the values that it is handed the digits stand for it.

Main definitions:

* `Item.InRange`: the bounds of the numbers, the addresses and the bytes of an item;
* `Item.ReadsBack`: the readers of the item's type take its text and its JSON text.

Main results:

* `Item.readsBack`: **every item is read back**;
* `Store.step_cases`: what a step can do;
* `Store.lookup_step`, `Session.lookup_of_mem_run`: the items of a session are answers of its steps;
* `Session.run_sound`: **every item of a session is in range and is read back**.
-/

set_option relaxedAutoImplicit false
set_option autoImplicit false

namespace WireCodec

open Json (Value Doc Reading)

/-! ### Bounds -/

namespace Item

/-- The numbers of 64 bits in an item. -/
def numbers : Item → List Nat
  | .u64 u => [u.value]
  | .guid g => [g.creationNumber.value]
  | _ => []

/-- The bytes of the addresses in an item. -/
def addresses : Item → List Bytes
  | .address a => [a.bytes]
  | .guid g => [g.address.bytes]
  | _ => []

/-- All bytes in an item. -/
def allBytes (i : Item) : Bytes := i.bytes?.getD [] ++ i.addresses.flatten

/-- The items that an item is put together from. -/
def parts : Item → List Item
  | .guid g => [.u64 g.creationNumber, .address g.address]
  | _ => []

/-- The numbers have 64 bits, the addresses 32 bytes, and the bytes 8 bits. -/
structure InRange (i : Item) : Prop where
  number_le : ∀ n ∈ i.numbers, n ≤ 2 ^ 64 - 1
  length_address : ∀ bytes ∈ i.addresses, bytes.length = 32
  byte_lt : ∀ b ∈ i.allBytes, b.toNat < 256

theorem inRange (i : Item) : i.InRange where
  number_le n hn := by
    cases i with
    | u64 u =>
        rw [List.mem_singleton.1 hn]
        exact u.value_le
    | guid g =>
        rw [List.mem_singleton.1 hn]
        exact g.creationNumber.value_le
    | hex | bytes | address | hash => cases hn
  length_address bytes hbytes := by
    cases i with
    | address a =>
        rw [List.mem_singleton.1 hbytes]
        exact a.length_bytes
    | guid g =>
        rw [List.mem_singleton.1 hbytes]
        exact g.address.length_bytes
    | u64 | hex | bytes | hash => cases hbytes
  byte_lt b _ := b.toNat_lt

/-! ### Reading back -/

/-- The readers of texts for the type of an item. -/
def textForms : Item → List TextForm
  | .u64 _ => [.u64]
  | .hex _ => [.hex]
  | .bytes _ => [.bytes]
  | .address _ => [.addressStrict, .addressRelaxed]
  | .hash _ => [.hash]
  | .guid _ => []

/-- The codec for the type of an item, if there is one. -/
def rawForms : Item → List RawForm
  | .u64 _ => [.u64]
  | .bytes _ => [.bytes]
  | .hash _ => [.hash]
  | .guid _ => [.guid]
  | .hex _ | .address _ => []

/-- The readers of an item's type take its text and its JSON text, the latter also as a document in
each of the two readings, and give the item. -/
structure ReadsBack (i : Item) : Prop where
  text : ∀ form ∈ i.textForms, (form.recipe i.text).make = .ofExcept (.ok i)
  raw : ∀ form ∈ i.rawForms, (form.recipe i.encode).make = .ofExcept (.ok i)
  value : ∀ type, i.wireType? = some type → ∀ source ∈ [Source.lossless i.encode, .plain i.encode],
    (Recipe.ofValue type source).make = .ofExcept (.ok i)

/-- The readers of texts take the text. -/
theorem make_text (i : Item) :
    ∀ form ∈ i.textForms, (form.recipe i.text).make = .ofExcept (.ok i) := by
  cases i with
  | u64 u =>
      simp only [textForms, List.forall_mem_singleton, TextForm.recipe, Recipe.make, text,
        U64.ofText_text]
      rfl
  | hex h =>
      simp only [textForms, List.forall_mem_singleton, TextForm.recipe, Recipe.make, text,
        Hex.ofText_text]
      rfl
  | bytes b =>
      simp only [textForms, List.forall_mem_singleton, TextForm.recipe, Recipe.make, text,
        Blob.ofText_text]
      rfl
  | address a =>
      simp only [textForms, List.forall_mem_cons, TextForm.recipe, Recipe.make, text,
        Address.strict_text, Address.relaxed_text]
      exact ⟨rfl, rfl, List.forall_mem_nil _⟩
  | hash h =>
      simp only [textForms, List.forall_mem_singleton, TextForm.recipe, Recipe.make, text]
  | guid g => exact List.forall_mem_nil _

/-- The codec takes the JSON text. -/
theorem make_raw (i : Item) :
    ∀ form ∈ i.rawForms, (form.recipe i.encode).make = .ofExcept (.ok i) := by
  cases i with
  | u64 u =>
      have hread : U64.codec.decode (Item.u64 u).encode = .ofExcept (.ok u) := u.codec_decode_encode
      simp only [rawForms, List.forall_mem_singleton, RawForm.recipe, Recipe.make, hread]
      rfl
  | bytes b =>
      have hread : Blob.codec.decode (Item.bytes b).encode = .ofExcept (.ok b) := b.decode_encode
      simp only [rawForms, List.forall_mem_singleton, RawForm.recipe, Recipe.make, hread]
      rfl
  | hash h =>
      have hread : Hash.codec.decode (Item.hash h).encode = .ofExcept (.ok h) :=
        Hash.codec_decode_eq_ok_iff.2 h.decode_encode
      simp only [rawForms, List.forall_mem_singleton, RawForm.recipe, Recipe.make, hread]
      rfl
  | guid g =>
      have hread : EventGuid.codec.decode (Item.guid g).encode = .ofExcept (.ok g) :=
        congrArg Logged.ofExcept g.decode_text
      simp only [rawForms, List.forall_mem_singleton, RawForm.recipe, Recipe.make, hread]
      rfl
  | hex | address => exact List.forall_mem_nil _

end Item

namespace WireItem

/-- Without numbers and parents the two readings give the same value. -/
theorem ofDoc_plain_toDoc (i : WireItem) :
    Value.ofDoc .plain i.toDoc = Value.ofDoc .lossless i.toDoc := by
  obtain ⟨item, type, htype⟩ := i
  cases item with
  | hex h => cases htype
  | u64 | bytes | address | hash => rfl
  | guid g => rfl

/-- Both readings of the canonical JSON text give the value of the canonical document. -/
theorem value_source (i : WireItem) :
    ∀ source ∈ [Source.lossless i.item.encode, .plain i.item.encode],
      source.value = .ok (.ofDoc .lossless i.toDoc) := by
  have hlossless : readJson i.item.encode .malformedObject "value" =
      .ok (.ofDoc .lossless i.toDoc) := readJson_print i.isWritable_toDoc
  have hplain : Value.read .plain i.item.encode = .ok (.ofDoc .lossless i.toDoc) := by
    have hparse : Doc.parse Reading.plain.admits i.item.encode = .ok i.toDoc :=
      i.isWritable_toDoc.parse_print
    rw [Value.read, hparse, ← i.ofDoc_plain_toDoc]
    rfl
  simp only [List.forall_mem_cons, Source.value, hlossless, hplain]
  exact ⟨rfl, rfl, List.forall_mem_nil _⟩

end WireItem

/-- **Every item is read back.** -/
theorem Item.readsBack (i : Item) : i.ReadsBack where
  text := i.make_text
  raw := i.make_raw
  value type htype source hsource := by
    have hvalue := WireItem.value_source ⟨i, type, htype⟩ source hsource
    rw [Recipe.make, hvalue]
    exact WireItem.decode_toDoc ⟨i, type, htype⟩

/-! ### Where the items of a session come from -/

namespace Store

variable (s : Store)

/-- A step leaves the items as they are, or it names an item that it makes. -/
theorem step_cases (x : Step) :
    (∃ answer, s.step x = s.tell answer) ∨ ∃ name made, s.step x = s.bind name made := by
  cases x with
  | make name recipe => exact .inr ⟨name, _, rfl⟩
  | look name =>
      rw [Store.step]
      split <;> exact .inl ⟨_, rfl⟩
  | equals a b =>
      rw [Store.step]
      split
      · split <;> exact .inl ⟨_, rfl⟩
      · exact .inl ⟨_, rfl⟩
  | reparse name source form | rejson name source form | rebytes name source form
  | guid name number address =>
      rw [Store.step]
      split
      · exact .inr ⟨name, _, rfl⟩
      · exact .inl ⟨_, rfl⟩
  | array names | object fields =>
      rw [Store.step]
      split <;> exact .inl ⟨_, rfl⟩

variable {s} {name : Text} {i : Item}

/-- An item that is there after another one was named was there before, or it is that one. -/
theorem lookup_bind {other : Text} {made : Logged Item}
    (h : (s.bind other made).store.lookup name = some i) :
    s.lookup name = some i ∨ (s.bind other made).answer = .item i := by
  rw [Store.bind] at h ⊢
  cases hmade : made.outcome with
  | error e =>
      rw [hmade] at h
      exact .inl h
  | ok j =>
      rw [hmade] at h
      by_cases hname : name = other
      · subst hname
        rw [Json.lookup_put_self] at h
        exact .inr (congrArg Answer.item (Option.some_inj.1 h))
      · rw [Json.lookup_put_ne hname] at h
        exact .inl h

/-- An item that is there after a step was there before, or the step answers with it. -/
theorem lookup_step {x : Step} (h : (s.step x).store.lookup name = some i) :
    s.lookup name = some i ∨ (s.step x).answer = .item i := by
  rcases s.step_cases x with ⟨answer, hx⟩ | ⟨other, made, hx⟩
  · rw [hx] at h
    exact .inl h
  · rw [hx] at h ⊢
    exact lookup_bind h

/-- What is made is the answer. -/
theorem answer_bind {made : Logged Item} (h : made = .ofExcept (.ok i)) :
    (s.bind name made).answer = .item i := by
  rw [h]
  rfl

end Store

/-- An item that is there in the course of a session was there at its beginning, or one of the steps
answered with it. -/
theorem Session.lookup_of_mem_run {s : Store} {steps : List Step} {after : Store.After}
    {name : Text} {i : Item} (hafter : after ∈ Session.run s steps)
    (h : after.store.lookup name = some i) :
    s.lookup name = some i ∨ ∃ maker ∈ Session.run s steps, maker.answer = .item i := by
  induction steps generalizing s with
  | nil => cases hafter
  | cons x steps ih =>
      have hstep : (s.step x).store.lookup name = some i →
          s.lookup name = some i ∨ ∃ maker ∈ Session.run s (x :: steps), maker.answer = .item i :=
        fun hx => (Store.lookup_step hx).imp_right fun hanswer => ⟨_, List.mem_cons_self, hanswer⟩
      rcases List.mem_cons.1 hafter with rfl | hafter
      · exact hstep h
      · rcases ih hafter with hx | ⟨maker, hmaker, hanswer⟩
        · exact hstep hx
        · exact .inr ⟨maker, List.mem_cons_of_mem _ hmaker, hanswer⟩

/-! ### Values that are read as literals -/

/-- A source gives what is read from a document, an integer, or nothing. -/
theorem Source.isRead_value {source : Source} {v : Value} (h : source.value = .ok v) :
    v.IsRead := by
  cases source with
  | lossless t =>
      obtain ⟨d, -, rfl⟩ := readJson_eq_ok_iff.1 (mapError_eq_ok_iff.1 h)
      exact .ofDoc .lossless d
  | plain t =>
      obtain ⟨d, -, rfl⟩ := exists_of_map_eq_ok (mapError_eq_ok_iff.1 h)
      exact .ofDoc .plain d
  | integer i =>
      rw [← Except.ok.inj h]
      exact .integer i
  | missing =>
      rw [← Except.ok.inj h]
      exact .missing

/-- A value that is reached from a value of a source by ordinary names. -/
theorem Json.Value.IsRead.path {v : Value} (hv : v.IsRead) {path : List Text}
    (hpath : ∀ key ∈ path, Value.IsOrdinary key) : (path.foldl Value.get v).IsRead := by
  induction path generalizing v with
  | nil => exact hv
  | cons key path ih =>
      obtain ⟨hkey, hpath⟩ := List.forall_mem_cons.1 hpath
      exact ih (hv.get hkey) hpath

/-! ### Sessions -/

/-- **Every item of a session is in range and is read back.**  Whatever the steps are, an item that
is there after one of them is the answer to a step; the item and the items that it is put together
from are in range, and are read back from their texts and their JSON texts; and a step that makes an
item from the text or the JSON text of this one, by a reader of its type, answers with it.

The reader of literals has no lower bound.  The integer that it takes without one is the number of
64 bits for every value that it can be handed: for a text, for a value of a source, and for what is
reached from such a value by ordinary names, as the text of a number token and the fields of an
identifier are. -/
theorem Session.run_sound :
    (∀ steps, ∀ after ∈ Session.run [] steps, ∀ name i, after.store.lookup name = some i →
      (∃ maker ∈ Session.run [] steps, maker.answer = .item i) ∧
      (∀ item ∈ i :: i.parts, item.InRange ∧ item.ReadsBack) ∧
      (∀ form ∈ i.textForms, ∀ other,
        (after.store.step (.reparse other name form)).answer = .item i) ∧
      ∀ form ∈ i.rawForms, ∀ other,
        (after.store.step (.rejson other name form)).answer = .item i) ∧
    (∀ t : Text, ((U64.ofText t).mapError Failure.decode).map (fun u => (u.value : Int)) =
      U64.unchecked (.text t)) ∧
    ∀ (source : Source) (v : Value), source.value = .ok v →
      ∀ path : List Text, (∀ key ∈ path, Value.IsOrdinary key) →
      (U64.ofTokenText (path.foldl Value.get v)).map (fun u => (u.value : Int)) =
        U64.unchecked (path.foldl Value.get v) := by
  refine ⟨fun steps after hafter name i hi => ⟨?_, ?_, ?_, ?_⟩, fun t => ?_, ?_⟩
  · rcases Session.lookup_of_mem_run hafter hi with hnil | hanswer
    · cases hnil
    · exact hanswer
  · exact fun item _ => ⟨item.inRange, item.readsBack⟩
  · intro form hform other
    rw [Store.step, hi]
    exact Store.answer_bind (i.make_text form hform)
  · intro form hform other
    rw [Store.step, hi]
    exact Store.answer_bind (i.make_raw form hform)
  · rw [← U64.ofTokenText_text]
    exact U64.map_ofTokenText (.ofDoc .plain (.text t))
  · intro source v hv path hpath
    exact U64.map_ofTokenText ((Source.isRead_value hv).path hpath)

/-- An object that says that it is a number and has an array in the place of its text, and an
identifier with this number and a special address. -/
theorem Session.run_sound_disguised :
    let t : Text := "\x7b\"isLosslessNumber\":true,\"value\":[\"7\"]\x7d"
    let name : Text := "g"
    let steps : List Step :=
      [.make "n" (.ofValue .u64 (.lossless t)), .make "a" (.addressRelaxed "000A"),
        .guid name "n" "a"]
    let g : EventGuid := ⟨⟨7, by decide⟩, ⟨List.replicate 31 0 ++ [10], rfl⟩⟩
    (∃ after ∈ Session.run [] steps, after.store.lookup name = some (.guid g) ∧
      (∀ item ∈ [Item.guid g, .u64 g.creationNumber, .address g.address],
        item.InRange ∧ item.ReadsBack) ∧
      (after.store.step (.rejson "h" name .guid)).answer = .item (.guid g)) ∧
    ∃ v, (Source.lossless t).value = .ok v ∧ (∀ key ∈ [Value.valueKey], Value.IsOrdinary key) ∧
      U64.unchecked (v.get Value.valueKey) = .ok 7 := by
  intro t name steps g
  obtain ⟨hsession, -, hliteral⟩ := Session.run_sound
  obtain ⟨after, hafter, hi⟩ :
      ∃ after ∈ Session.run [] steps, after.store.lookup name = some (.guid g) :=
    ⟨_, .tail _ (.tail _ (.head _)), by decide +kernel⟩
  obtain ⟨-, hitems, -, hrejson⟩ := hsession steps after hafter name _ hi
  have hkeys : ∀ key ∈ [Value.valueKey], Value.IsOrdinary key :=
    List.forall_mem_singleton.2 Value.isOrdinary_valueKey
  let d : Doc := .object [(Value.tokenKey, .bool true), (Value.valueKey, .array [.text [0x37]])]
  have hd : d.IsWritable Reading.lossless.admits := ⟨trivial, rfl, ⟨trivial, trivial⟩, rfl, trivial⟩
  have ht : t = d.print := by decide +kernel
  have hv : (Source.lossless t).value = .ok (.ofDoc .lossless d) := by
    rw [Source.value, ht, readJson_print hd]
    rfl
  have hread : U64.ofTokenText ((Value.ofDoc .lossless d).get Value.valueKey) =
      .ok ⟨7, by decide⟩ := by decide +kernel
  have hseven := hliteral _ _ hv [Value.valueKey] hkeys
  rw [List.foldl_cons, List.foldl_nil, hread] at hseven
  exact ⟨⟨after, hafter, hi, hitems, hrejson .guid (.head _) "h"⟩, _, hv, hkeys, hseven.symm⟩

end WireCodec

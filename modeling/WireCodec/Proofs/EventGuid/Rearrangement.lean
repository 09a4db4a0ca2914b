import WireCodec.Proofs.EventGuid.Object
import WireCodec.Proofs.Json.Admission
import WireCodec.Proofs.Json.Rearrangement

/-
**Identifiers with unknown fields, in any order.**

An identifier is decoded from an object in which its two fields may stand anywhere and among
others.  What the others are matters in two ways only: the reader has to take them, and they must
not make the object pass for a number.

Main definitions:

* `EventGuid.SameFields`: two objects have the same in both fields;
* `EventGuid.Steady`: the members that matter agree.

Main results:

* `EventGuid.decode_eq_ok_iff`: which objects are decoded to an identifier;
* `EventGuid.decode_rearranged_iff`: when a rearranged object is decoded to the same identifier.
-/

set_option relaxedAutoImplicit false
set_option autoImplicit false

namespace WireCodec

open Json (Value Doc Reading Agrees Rearranges AddsNumber)

namespace EventGuid

/-! ### Objects of identifiers -/

/-- **An object is decoded to an identifier** if the reader takes its members, it does not pose as a
number, and its two fields are decoded to the parts of the identifier. -/
theorem decode_eq_ok_iff {raw : Text} {members : List (Text × Doc)} {g : EventGuid}
    (hraw : Json.WrittenSpaced Reading.plain.admits (.object members) raw) :
    decode raw = .ok g ↔ (Doc.object members).IsWritable Reading.lossless.admits ∧
      ¬ (Doc.object members).Poses ∧
      readField (.ofDoc .lossless (.object members)) numberField U64.ofValue =
        .ok g.creationNumber ∧
      readField (.ofDoc .lossless (.object members)) addressField Address.ofValue =
        .ok g.address := by
  rw [← Value.isObject_ofDoc_object_iff, ← ofValue_eq_ok_iff]
  constructor
  · intro h
    obtain ⟨d, hd, hvalue⟩ := exists_written_of_decode h
    obtain ⟨hplain, hwritable⟩ := Json.writtenSpaced_iff.1 hd
    obtain rfl := hplain.unique hraw
    exact ⟨hwritable, hvalue⟩
  · rintro ⟨hwritable, hvalue⟩
    rw [decode_of_written (Json.writtenSpaced_iff.2 ⟨hraw, hwritable⟩)]
    exact hvalue

/-! ### Rearranged objects -/

/-- Two objects have the same in both fields. -/
structure SameFields (members members' : List (Text × Doc)) : Prop where
  number : readField (.ofDoc .lossless (.object members')) numberField U64.ofValue =
    readField (.ofDoc .lossless (.object members)) numberField U64.ofValue
  address : readField (.ofDoc .lossless (.object members')) addressField Address.ofValue =
    readField (.ofDoc .lossless (.object members)) addressField Address.ofValue

/-- The members that the decoder looks at agree: each of the four keys is written only once, or
always with the same document. -/
def Steady (members : List (Text × Doc)) : Prop :=
  ∀ key ∈ [numberField, addressField, Value.tokenKey, Value.parentKey], Agrees key members

theorem steady_of_nodup {members : List (Text × Doc)} (h : (members.map Prod.fst).Nodup) :
    Steady members := fun key _ => Json.agrees_of_nodup h key

section

variable {raw raw' : Text} {members extra members' : List (Text × Doc)} {g : EventGuid}
  (hraw : Json.WrittenSpaced Reading.plain.admits (.object members) raw)
  (h : Rearranges members extra members') (hdecode : decode raw = .ok g)
include hraw hdecode h

/-- Objects whose members agree keep their fields. -/
theorem sameFields_of_steady (hsteady : Steady members)
    (hnew : ∀ m ∈ extra, m.1 ≠ numberField ∧ m.1 ≠ addressField) : SameFields members members' := by
  obtain ⟨-, -, hnumber, haddress⟩ := (decode_eq_ok_iff hraw).1 hdecode
  have hcomposite := isComposite_ofDoc_object .lossless members
  have hcomposite' := isComposite_ofDoc_object .lossless members'
  have hparent := hsteady Value.parentKey (by simp)
  constructor
  · refine readField_congr hcomposite' hcomposite ?_ _
    exact h.get_eq isOrdinary_numberField (hsteady _ (by simp)) hparent
      (fun m hm => (hnew m hm).1) (not_lacks_of_readField_eq_ok hcomposite hnumber)
  · refine readField_congr hcomposite' hcomposite ?_ _
    exact h.get_eq isOrdinary_addressField (hsteady _ (by simp)) hparent
      (fun m hm => (hnew m hm).2) (not_lacks_of_readField_eq_ok hcomposite haddress)

/-- Objects whose members agree pose if the further members say so. -/
theorem poses_rearranged_iff (hsteady : Steady members) :
    (Doc.object members').Poses ↔ AddsNumber members extra := by
  obtain ⟨-, hposes, -⟩ := (decode_eq_ok_iff hraw).1 hdecode
  have hnot : ¬ (Doc.object members).PassesForNumber := fun hpasses => hposes ⟨rfl, hpasses⟩
  rw [← h.passesForNumber_iff (hsteady _ (by simp)) (hsteady _ (by simp)) hnot]
  exact and_iff_right rfl

/-- Objects whose keys are different are taken if the further members are. -/
theorem isWritable_rearranged_iff (hnodup : (members.map Prod.fst).Nodup) :
    (Doc.object members').IsWritable Reading.lossless.admits ↔
      ∀ m ∈ extra, m.2.IsWritable Reading.lossless.admits := by
  obtain ⟨hwritable, -⟩ := (decode_eq_ok_iff hraw).1 hdecode
  rw [Json.Doc.isWritable_object_iff hnodup] at hwritable
  rw [Json.Doc.isWritable_object_iff (h.nodup_keys hnodup)]
  constructor
  · intro hall m hm
    exact hall m (h.mem_iff.2 (.inr hm))
  · intro hextra m hm
    rcases h.mem_iff.1 hm with hm | hm
    · exact hwritable m hm
    · exact hextra m hm

end

/-- **When a rearranged object is decoded to the same identifier**: the reader takes its members, it
does not pose as a number, and both fields stay what they were.  Where the members that matter
agree, the fields do stay, and where all keys are different, only the further members have to be
looked at. -/
theorem decode_rearranged_iff {raw raw' : Text} {members extra members' : List (Text × Doc)}
    {g : EventGuid} (hraw : Json.WrittenSpaced Reading.plain.admits (.object members) raw)
    (hraw' : Json.WrittenSpaced Reading.plain.admits (.object members') raw')
    (h : Rearranges members extra members')
    (hnew : ∀ m ∈ extra, m.1 ≠ numberField ∧ m.1 ≠ addressField) (hdecode : decode raw = .ok g) :
    (decode raw' = .ok g ↔ (Doc.object members').IsWritable Reading.lossless.admits ∧
      ¬ (Doc.object members').Poses ∧ SameFields members members') ∧
    (Steady members → (decode raw' = .ok g ↔
      (Doc.object members').IsWritable Reading.lossless.admits ∧ ¬ AddsNumber members extra)) ∧
    ((members.map Prod.fst).Nodup → (decode raw' = .ok g ↔
      (∀ m ∈ extra, m.2.IsWritable Reading.lossless.admits) ∧ ¬ AddsNumber members extra)) := by
  have hgeneral : decode raw' = .ok g ↔ (Doc.object members').IsWritable Reading.lossless.admits ∧
      ¬ (Doc.object members').Poses ∧ SameFields members members' := by
    obtain ⟨-, -, hnumber, haddress⟩ := (decode_eq_ok_iff hraw).1 hdecode
    rw [decode_eq_ok_iff hraw', ← hnumber, ← haddress]
    constructor
    · rintro ⟨hwritable, hposes, hnumber', haddress'⟩
      exact ⟨hwritable, hposes, hnumber', haddress'⟩
    · rintro ⟨hwritable, hposes, hsame⟩
      exact ⟨hwritable, hposes, hsame.number, hsame.address⟩
  have hagree : Steady members → (decode raw' = .ok g ↔
      (Doc.object members').IsWritable Reading.lossless.admits ∧ ¬ AddsNumber members extra) := by
    intro hsteady
    have hsame := sameFields_of_steady hraw h hdecode hsteady hnew
    rw [hgeneral, poses_rearranged_iff hraw h hdecode hsteady, and_iff_left hsame]
  refine ⟨hgeneral, hagree, ?_⟩
  intro hnodup
  rw [hagree (steady_of_nodup hnodup), isWritable_rearranged_iff hraw h hdecode hnodup]

/-- An unknown field between the two, which are in the other order. -/
theorem decode_rearranged_iff_unknown :
    let raw : Text := "\x7b\"creation_number\":5,\"account_address\":\"0x1\"\x7d"
    let raw' : Text := Text.concat ["\x7b\"account_address\":\"0x1\",\"memo\":[null],",
      "\"creation_number\":5\x7d"]
    ∃ g, decode raw = .ok g ∧ decode raw' = .ok g := by
  let number : Text × Doc := (numberField, .number (Json.Numeral.ofNat 5))
  let address : Text × Doc := (addressField, .text "0x1")
  let memo : Text × Doc := ("memo", .array [.null])
  have hdoc : (Doc.object [number, address]).IsWritable Reading.plain.admits :=
    ⟨Json.Numeral.isToken_ofNat 5, rfl, trivial, rfl, trivial⟩
  have hdoc' : (Doc.object [address, memo, number]).IsWritable Reading.plain.admits :=
    ⟨trivial, rfl, ⟨trivial, trivial⟩, rfl, Json.Numeral.isToken_ofNat 5, rfl, trivial⟩
  have hrearranges : Rearranges [number, address] [memo] [address, memo, number] :=
    ⟨List.perm_append_singleton number [address, memo], by decide, by decide⟩
  intro raw raw'
  have hraw := hdoc.spaced_of_print_eq (t := raw) (by decide +kernel)
  have hraw' := hdoc'.spaced_of_print_eq (t := raw') (by decide +kernel)
  have hdecode : decode raw = .ok ⟨⟨5, by decide⟩, ⟨List.replicate 31 0 ++ [1], rfl⟩⟩ := by
    decide +kernel
  have hnew : ∀ m ∈ [memo], m.1 ≠ numberField ∧ m.1 ≠ addressField := by decide
  obtain ⟨-, -, hdifferent⟩ := decode_rearranged_iff hraw hraw' hrearranges hnew hdecode
  refine ⟨_, hdecode, (hdifferent (by decide)).2 ⟨?_, ?_⟩⟩
  · intro m hm
    rw [List.mem_singleton.1 hm]
    exact ⟨trivial, trivial⟩
  · exact Json.not_addsNumber_of_unused (by decide) (by decide)

/-- An unknown field that matters: with it the object poses as a number and is refused. -/
theorem not_decode_of_said :
    let raw : Text := "\x7b\"creation_number\":5,\"account_address\":\"0x1\"\x7d"
    let raw' : Text := Text.concat ["\x7b\"creation_number\":5,\"account_address\":\"0x1\",",
      "\"isLosslessNumber\":true\x7d"]
    ∃ members m, Json.WrittenSpaced Reading.plain.admits (.object members) raw ∧
      Json.WrittenSpaced Reading.plain.admits (.object (members ++ [m])) raw' ∧
      Rearranges members [m] (members ++ [m]) ∧ m.1 ≠ numberField ∧ m.1 ≠ addressField ∧
      (∃ g, decode raw = .ok g) ∧ decode raw' = .error (.decode (.unexpected .guid .number)) := by
  let members : List (Text × Doc) :=
    [(numberField, .number (Json.Numeral.ofNat 5)), (addressField, .text "0x1")]
  let said : Text × Doc := (Value.tokenKey, .bool true)
  have hdoc : (Doc.object members).IsWritable Reading.plain.admits :=
    ⟨Json.Numeral.isToken_ofNat 5, rfl, trivial, rfl, trivial⟩
  have hdoc' : (Doc.object (members ++ [said])).IsWritable Reading.plain.admits :=
    ⟨Json.Numeral.isToken_ofNat 5, rfl, trivial, rfl, trivial, rfl, trivial⟩
  intro raw raw'
  refine ⟨members, said, ?_, ?_, ⟨.refl _, by decide, by decide⟩, by decide, by decide, ?_, ?_⟩
  · exact hdoc.spaced_of_print_eq (by decide +kernel)
  · exact hdoc'.spaced_of_print_eq (by decide +kernel)
  · have hdecode : decode raw = .ok ⟨⟨5, by decide⟩, ⟨List.replicate 31 0 ++ [1], rfl⟩⟩ := by
      decide +kernel
    exact ⟨_, hdecode⟩
  · decide +kernel

end EventGuid

end WireCodec

import WireCodec.Item
import WireCodec.Proofs.Canonical

/-
**Identifiers of events are read back.**

The canonical text has no escapes, so it can be written down.  The reader finds the two fields in
it, reads the number and the address back and so gives the identifier again.

Main results:

* `EventGuid.text_eq`: the canonical text, unit for unit;
* `EventGuid.decode_text`: the canonical text is read back;
* `EventGuid.codec_roundTrip`: the codec reads what it writes.
-/

set_option relaxedAutoImplicit false
set_option autoImplicit false

namespace WireCodec

open Json (Value Doc Reading)

namespace EventGuid

/-! ### The canonical text -/

/-- The canonical text: the fields in their order, both as texts without escapes. -/
theorem text_eq (g : EventGuid) :
    g.text = Text.concat ["\x7b\"creation_number\":\"", g.creationNumber.text,
      "\",\"account_address\":\"", g.address.text, "\"\x7d"] := by
  have hnumber : g.creationNumber.toDoc.print =
      Json.quote :: (g.creationNumber.text ++ [Json.quote]) := by
    rw [U64.toDoc, Doc.print, Json.quoted, U64.escape_text]
  have haddress : g.address.toDoc.print = Json.quote :: (g.address.text ++ [Json.quote]) := by
    rw [Address.toDoc, Doc.print, Json.quoted, Address.escape_text]
  rw [text, toDoc, Doc.print, Doc.printMembers, Doc.printMembers, hnumber, haddress]
  · -- what is left are the keys and the punctuation, spelled out
    simp only [Text.concat, List.flatten_cons, List.flatten_nil, List.append_nil, List.append_assoc,
      List.cons_append]
    rfl
  · exact List.cons_ne_nil _ _

/-- The canonical document can be written, for both readings. -/
theorem isWritable_toDoc {r : Reading} (g : EventGuid) : g.toDoc.IsWritable r.admits := by
  cases r with
  | lossless => exact ⟨trivial, rfl, trivial, rfl, trivial⟩
  | plain => exact ⟨trivial, rfl, trivial, rfl, trivial⟩

/-! ### Reading it -/

/-- The value of the canonical document is read back: both fields are there. -/
theorem ofValue_toDoc (g : EventGuid) : ofValue (.ofDoc .lossless g.toDoc) = .ok g := by
  have hobject : (Value.ofDoc .lossless g.toDoc).isObject = true := rfl
  have hnumber : readField (Value.ofDoc .lossless g.toDoc) numberField U64.ofValue =
      .ok g.creationNumber := by
    have hfield : requiredField (Value.ofDoc .lossless g.toDoc) numberField =
        .ok (.ofDoc .lossless g.creationNumber.toDoc) := rfl
    rw [readField, hfield]
    simp only
    rw [U64.ofValue_toDoc]
    rfl
  have haddress : readField (Value.ofDoc .lossless g.toDoc) addressField Address.ofValue =
      .ok g.address := by
    have hfield : requiredField (Value.ofDoc .lossless g.toDoc) addressField =
        .ok (.ofDoc .lossless g.address.toDoc) := rfl
    rw [readField, hfield]
    simp only
    rw [Address.ofValue_toDoc]
    rfl
  rw [ofValue, if_pos hobject, hnumber]
  simp only
  rw [haddress]

/-- **The canonical text is read back.** -/
theorem decode_text (g : EventGuid) : decode g.text = .ok g := by
  have hread : readJson g.text .malformedObject "event GUID" =
      .ok (Value.ofDoc .lossless g.toDoc) := readJson_print g.isWritable_toDoc
  rw [decode, hread]
  exact g.ofValue_toDoc

/-- **The codec reads what it writes.**  What it writes is the compact text of the item: the two
fields in their order, the number as its digits without leading zeros and the address as its text.
Writing what was read from any text, and reading it again, changes neither the identifier nor its
text. -/
theorem codec_roundTrip :
    (∀ g : EventGuid, codec.decode (codec.encode g) = .ofExcept (.ok g) ∧
      codec.encode g = (Item.guid g).encode ∧
      ∃ digits, Decimal.IsCanonical digits ∧
        Decimal.number digits = g.creationNumber.value ∧
        codec.encode g = Text.concat ["\x7b\"creation_number\":\"", Decimal.spell digits,
          "\",\"account_address\":\"", g.address.text, "\"\x7d"]) ∧
    ∀ (raw : Text) (g : EventGuid), (codec.decode raw).outcome = .ok g →
      ∃ g', (codec.decode (codec.encode g)).outcome = .ok g' ∧ g' = g ∧
        codec.encode g' = codec.encode g := by
  have hread : ∀ g : EventGuid, codec.decode (codec.encode g) = .ofExcept (.ok g) := fun g =>
    congrArg Logged.ofExcept g.decode_text
  refine ⟨fun g => ⟨hread g, rfl, Decimal.digits g.creationNumber.value,
    Decimal.isCanonical_digits _, Decimal.number_digits _, g.text_eq⟩, fun raw g _ => ?_⟩
  exact ⟨g, by rw [hread]; rfl, rfl, rfl⟩

/-- A bare number, a padded address, an unknown field and the other order. -/
theorem codec_roundTrip_uncanonical :
    let raw : Text :=
      "\x7b\"account_address\":\"000A\",\"x\":[],\"creation_number\":18446744073709551615\x7d"
    let g : EventGuid := ⟨⟨maxU64, Nat.le_refl _⟩, ⟨List.replicate 31 0 ++ [10], rfl⟩⟩
    (codec.decode raw).outcome = .ok g ∧
      ∃ g', (codec.decode (codec.encode g)).outcome = .ok g' ∧ g' = g ∧
        codec.encode g' = codec.encode g := by
  intro raw g
  have hread : (codec.decode raw).outcome = .ok g := by decide +kernel
  exact ⟨hread, codec_roundTrip.2 raw g hread⟩

end EventGuid

end WireCodec

import WireCodec.Proofs.Canonical

/-
**Bytes are read back.**

Bytes have one canonical text, the mark and two small digits for each of them.  It has no escapes,
so between quotes it is the canonical JSON text, and the mark decides that it is read in base
sixteen.  No bytes are written as the mark alone, which is read back as no bytes.

Main results:

* `Blob.encode_eq`: the canonical JSON text, unit for unit;
* `Blob.decode_encode`: it is read back and nothing is logged;
* `Blob.codec_canonical`: **whatever the bytes were read from, they are written canonically and read
  back**.
-/

set_option relaxedAutoImplicit false
set_option autoImplicit false

namespace WireCodec

open Json (Value Doc)

namespace Blob

/-- The canonical JSON text: the mark and the digits between quotes. -/
theorem encode_eq (b : Blob) :
    b.encode = Text.concat ["\"0x", Base16.encode b.bytes, "\""] := by
  rw [encode, toDoc, Doc.print, Json.quoted, escape_text]
  -- what is left are the punctuation and the mark, spelled out
  simp only [Text.concat, List.flatten_cons, List.flatten_nil, List.append_nil]
  rfl

/-- The canonical JSON text is read back, and the text is not tried in base sixty-four. -/
theorem decode_encode (b : Blob) : decode b.encode = .ofExcept (.ok b) := by
  have hread : readJson b.encode .malformedBytes "bytes" = .ok (.ofDoc .lossless b.toDoc) :=
    readJson_print trivial
  rw [decode, hread]
  exact b.ofValue_toDoc

/-- **Whatever the bytes were read from, they are written canonically and read back.**  The
canonical JSON text is the mark and two small digits for each byte between quotes.  It is read back
without an entry in the log, and so is the text itself, by the reader of base sixteen and by that of
both bases.  Reading what was written for bytes from any text and writing it again changes
nothing. -/
theorem codec_canonical :
    (∀ b : Blob,
      (∃ digits : Text, digits.length = 2 * b.bytes.length ∧
        (∀ u ∈ digits, u ∈ Base16.smallDigitUnits) ∧ Base16.Writes digits b.bytes ∧
        codec.encode b = Text.concat ["\"0x", digits, "\""]) ∧
      codec.decode (codec.encode b) = .ofExcept (.ok b) ∧
      Hex.ofText b.text = .ok ⟨b.bytes⟩ ∧ ofText b.text = .ofExcept (.ok b)) ∧
    ∀ (raw : Text) (b : Blob), (codec.decode raw).outcome = .ok b →
      ∃ b', codec.decode (codec.encode b) = .ofExcept (.ok b') ∧ b'.bytes = b.bytes ∧
        codec.encode b' = codec.encode b := by
  refine ⟨fun b => ⟨⟨Base16.encode b.bytes, ?_, ?_, Base16.writes_encode _, b.encode_eq⟩,
    b.decode_encode, Hex.ofText_text _, b.ofText_text⟩, fun raw b _ => ?_⟩
  · exact Base16.length_encode b.bytes
  · exact fun u => Base16.mem_smallDigitUnits_of_mem_encode
  · exact ⟨b, b.decode_encode, rfl, rfl⟩

/-- Three bytes in base sixty-four, read with an entry in the log. -/
theorem codec_canonical_base64 :
    let raw : Text := "\"q83v\""
    let b : Blob := ⟨[0xAB, 0xCD, 0xEF]⟩
    (codec.decode raw).outcome = .ok b ∧ (codec.decode raw).log ≠ [] ∧
      ∃ b', codec.decode (codec.encode b) = .ofExcept (.ok b') ∧ b'.bytes = b.bytes ∧
        codec.encode b' = codec.encode b := by
  intro raw b
  have hread : (codec.decode raw).outcome = .ok b := by decide +kernel
  exact ⟨hread, by decide +kernel, codec_canonical.2 raw b hread⟩

end Blob

end WireCodec

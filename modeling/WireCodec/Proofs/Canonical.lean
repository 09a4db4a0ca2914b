import WireCodec.Address.Json
import WireCodec.Blob
import WireCodec.Hash
import WireCodec.Proofs.Address
import WireCodec.Proofs.Decoding
import WireCodec.U64

/-
**The canonical text of a value is read back.**

Numbers, addresses and bytes are written with units that need no escapes, so the canonical JSON
text is the text of the value between quotes.  Each reader takes the text of its own values, and
the canonical document of a value is read as the value.

Main results:

* `U64.ofText_text`, `Hex.ofText_text`, `Blob.ofText_text`: the text of a value is read back;
* `Decimal.escape_intText`, `U64.escape_text`, `Address.escape_text`, `Blob.escape_text`: it has no
  escapes;
* `U64.ofValue_toDoc`, `Address.ofValue_toDoc`, `Blob.ofValue_toDoc`, `Hash.ofValue_toDoc`: the
  value of the canonical document is read back.
-/

set_option relaxedAutoImplicit false
set_option autoImplicit false

namespace WireCodec

open Json (Value Doc)

/-! ### Numbers -/

/-- Digits and a minus sign have no escapes. -/
theorem Decimal.escape_intText (i : Int) : Json.escape (intText i) = intText i := by
  have hdigit : ∀ d : Digit, Json.escapeUnit d.unit = [d.unit] := by decide
  have hminus : Json.escapeUnit minus = [minus] := by decide
  have htext : ∀ n : Nat, ∀ u ∈ text n, Json.escapeUnit u = [u] := by
    intro n u hu
    obtain ⟨d, -, rfl⟩ := List.mem_map.1 hu
    exact hdigit d
  refine Json.escape_eq_self fun u hu => ?_
  cases i with
  | ofNat n => exact htext n u hu
  | negSucc n =>
      rcases List.mem_cons.1 hu with rfl | hu
      · exact hminus
      · exact htext (n + 1) u hu

namespace U64

theorem ofText_text (n : U64) : ofText n.text = .ok n := by
  rw [ofText, text, Decimal.read?_text]
  exact dif_pos n.value_le

theorem escape_text (n : U64) : Json.escape n.text = n.text := Decimal.escape_intText n.value

theorem ofValue_toDoc (n : U64) : ofValue (.ofDoc .lossless n.toDoc) = .ok n := by
  rw [toDoc, Value.ofDoc, ofValue, ofText_text]
  rfl

end U64

/-! ### Digits with a mark -/

/-- The mark and digits have no escapes. -/
theorem Base16.escape_mark_append {digits : Text} (h : ∀ u ∈ digits, u ∈ digitUnits) :
    Json.escape (mark ++ digits) = mark ++ digits := by
  refine Json.escape_eq_self fun u hu => ?_
  have hall : (mark ++ digitUnits).all (fun u => Json.escapeUnit u == [u]) = true := by decide
  have hmem : u ∈ mark ++ digitUnits := by
    rcases List.mem_append.1 hu with hu | hu
    · exact List.mem_append_left _ hu
    · exact List.mem_append_right _ (h u hu)
  exact eq_of_beq (List.all_eq_true.1 hall u hmem)

namespace Address

theorem escape_text (a : Address) : Json.escape a.text = a.text :=
  Base16.escape_mark_append fun _ hu => mem_digitUnits_of_mem_bareText hu

theorem ofValue_toDoc (a : Address) : ofValue (.ofDoc .lossless a.toDoc) = .ok a := by
  rw [toDoc, Value.ofDoc, ofValue, relaxed_text]
  rfl

end Address

/-- The text of bytes is read back, the mark alone as no bytes. -/
theorem Hex.ofText_text (h : Hex) : ofText h.text = .ok h := by
  refine ofText_eq_ok_iff.2 ⟨?_, ?_⟩
  · simp [text, Base16.mark, Text.ofString, Text.ofChar]
  · rw [text, Base16.unmarked_mark_append]
    exact Base16.writes_encode h.bytes

namespace Blob

/-- The text carries the mark, so it is not tried as anything else and nothing is logged. -/
theorem ofText_text (b : Blob) : ofText b.text = .ofExcept (.ok b) := by
  have hmark : (Text.after? Base16.mark b.text).isSome = true := by
    rw [text, Hex.text, Text.after?_eq_some.2 rfl]
    rfl
  rw [ofText, if_pos hmark, ofBase16, text, Hex.ofText_text]

theorem escape_text (b : Blob) : Json.escape b.text = b.text :=
  Base16.escape_mark_append fun _ hu =>
    Base16.mem_digitUnits_of_small (Base16.mem_smallDigitUnits_of_mem_encode hu)

theorem ofValue_toDoc (b : Blob) : ofValue (.ofDoc .lossless b.toDoc) = .ofExcept (.ok b) := by
  rw [toDoc, Value.ofDoc, ofValue, ofText_text]

end Blob

/-! ### Hashes -/

theorem Hash.ofValue_toDoc (h : Hash) : ofValue (.ofDoc .lossless h.toDoc) = .ok h := by
  rw [toDoc, Value.ofDoc, ofValue]

end WireCodec

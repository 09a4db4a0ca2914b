import WireCodec.Address
import WireCodec.Proofs.Hex

/-
**The texts of an address denote it.**

The short text of a special address leaves out 63 zeros in front of its last digit.  The relaxed
reader puts them back, so it reads the text of every address as the address.

Main definitions:

* `Address.RelaxedForm`: 1 to 64 digits, perhaps with the mark in front.

Main results:

* `Address.RelaxedForm.relaxed_eq`, `Address.exists_error_of_not_relaxedForm`: the relaxed reader
  takes the relaxed form, and why it refuses any other text;
* `Address.isSpecial_iff`: the special addresses are those whose number is a single digit;
* `Address.padded_bareText`: the digits of a text, padded, are those of the long text;
* `Address.relaxed_text`, `Address.strict_text`: the text of an address is read back.
-/

set_option relaxedAutoImplicit false
set_option autoImplicit false

namespace WireCodec

namespace Address

/-- The comparison of two addresses decides equality. -/
theorem equals_iff {a b : Address} : a.equals b = true ↔ a = b := by
  rw [equals, Bytes.same_iff, Address.ext_iff]

/-! ### The relaxed form -/

/-- The text is 1 to 64 digits of base sixteen, perhaps with the mark in front. -/
structure RelaxedForm (t digits : Text) : Prop where
  marked : t = digits ∨ t = Base16.mark ++ digits
  pos : 0 < digits.length
  length_le : digits.length ≤ longLength
  isDigit : ∀ u ∈ digits, u ∈ Base16.digitUnits

theorem marked_unmarked (t : Text) :
    t = Base16.unmarked t ∨ t = Base16.mark ++ Base16.unmarked t := by
  by_cases hmark : Base16.mark <+: t
  · obtain ⟨digits, rfl⟩ := hmark
    rw [Base16.unmarked_mark_append]
    exact .inr rfl
  · rw [Base16.unmarked_of_not_marked hmark]
    exact .inl rfl

/-- The digits of a relaxed form are what follows the mark, for no digit is in the mark but its
first unit. -/
theorem RelaxedForm.unmarked_eq {t digits : Text} (h : RelaxedForm t digits) :
    Base16.unmarked t = digits := by
  rcases h.marked with rfl | rfl
  · exact Base16.unmarked_of_not_marked (Base16.not_marked_of_digits h.isDigit)
  · exact Base16.unmarked_mark_append digits

theorem length_padded {digits : Text} (h : digits.length ≤ longLength) :
    (padded digits).length = longLength := by
  rw [padded, List.length_append, List.length_replicate]
  omega

/-- The zeros in front are digits too. -/
theorem RelaxedForm.exists_writes {t digits : Text} (h : RelaxedForm t digits) :
    ∃ bytes, Base16.Writes (padded digits) bytes ∧ bytes.length = 32 := by
  have hlen := length_padded h.length_le
  have hdigits : ∀ u ∈ padded digits, u ∈ Base16.digitUnits := by
    intro u hu
    rcases List.mem_append.1 hu with hu | hu
    · rw [List.eq_of_mem_replicate hu]
      decide
    · exact h.isDigit u hu
  have heven : (padded digits).length % 2 = 0 := by
    rw [hlen]
    rfl
  obtain ⟨bytes, hw⟩ := Base16.exists_writes_iff.2 ⟨heven, hdigits⟩
  have hbytes := hw.length_eq
  rw [hlen, longLength] at hbytes
  exact ⟨bytes, hw, by omega⟩

/-- The relaxed reader takes the texts in relaxed form, with the bytes that their digits write. -/
theorem RelaxedForm.relaxed_eq {t digits : Text} (h : RelaxedForm t digits) :
    ∃ a, relaxed t = .ok a ∧ Base16.Writes (padded digits) a.bytes := by
  obtain ⟨bytes, hw, hlen⟩ := h.exists_writes
  have hpos := h.pos
  have hle := h.length_le
  refine ⟨⟨bytes, hlen⟩, ?_, hw⟩
  rw [relaxed, h.unmarked_eq, if_neg (by omega), if_neg (by omega), Base16.decode_eq_ok_iff.2 hw]
  exact dif_pos hlen

/-- The relaxed reader refuses any other text for its length or for a unit that is no digit. -/
theorem exists_error_of_not_relaxedForm {t : Text} (h : ∀ digits, ¬ RelaxedForm t digits) :
    ∃ e, relaxed t = .error e ∧
      (e = .tooShort ∨ e = .tooLong ∨ ∃ fault, e = .notDigits fault) := by
  rw [relaxed]
  by_cases hpos : (Base16.unmarked t).length = 0
  · exact ⟨.tooShort, if_pos hpos, .inl rfl⟩
  · rw [if_neg hpos]
    by_cases hle : longLength < (Base16.unmarked t).length
    · exact ⟨.tooLong, if_pos hle, .inr (.inl rfl)⟩
    · rw [if_neg hle]
      cases hdecode : Base16.decode (padded (Base16.unmarked t)) with
      | error fault => exact ⟨.notDigits fault, rfl, .inr (.inr ⟨fault, rfl⟩)⟩
      | ok bytes =>
          -- what is read is digits, so the text was in relaxed form
          have hw := Base16.decode_eq_ok_iff.1 hdecode
          have hdigits := (Base16.exists_writes_iff.1 ⟨bytes, hw⟩).2
          refine absurd ⟨marked_unmarked t, by omega, by omega, fun u hu => ?_⟩
            (h (Base16.unmarked t))
          exact hdigits u (List.mem_append_right _ hu)

/-! ### Special addresses -/

/-- The special addresses are those whose number is a single digit. -/
theorem isSpecial_iff {a : Address} :
    a.isSpecial = true ↔ ∃ d : Fin 16, a.bytes = List.replicate 31 0 ++ [UInt8.ofNat d.val] := by
  have hne : a.bytes ≠ [] := by
    intro hnil
    have hlen := a.length_bytes
    rw [hnil] at hlen
    simp at hlen
  constructor
  · -- 31 bytes are zero, and the last one is a digit
    intro h
    simp only [isSpecial, Bool.and_eq_true, List.getLast?_eq_some_getLast hne, Option.any_some,
      decide_eq_true_eq, List.all_eq_true, beq_iff_eq] at h
    have hzeros : a.bytes.dropLast = List.replicate 31 0 :=
      List.eq_replicate_iff.2 ⟨by rw [List.length_dropLast, a.length_bytes], h.1⟩
    refine ⟨⟨(a.bytes.getLast hne).toNat, h.2⟩, ?_⟩
    simp only [UInt8.ofNat_toNat]
    rw [← hzeros, List.dropLast_concat_getLast hne]
  · rintro ⟨d, hd⟩
    have hlt : ∀ d : Fin 16, (UInt8.ofNat d.val).toNat < 16 := by decide
    rw [isSpecial, hd]
    simpa using hlt d

/-- The digits of a special address: zeros and a last digit. -/
theorem encode_special (d : Fin 16) :
    Base16.encode (List.replicate 31 0 ++ [UInt8.ofNat d.val]) =
      List.replicate 63 (Text.unit '0') ++ [Base16.unit d] := by
  revert d
  decide

theorem length_digits (a : Address) : (Base16.encode a.bytes).length = longLength := by
  rw [Base16.length_encode, a.length_bytes]
  rfl

/-! ### Texts -/

theorem bareText_of_special {a : Address} {d : Fin 16}
    (h : a.bytes = List.replicate 31 0 ++ [UInt8.ofNat d.val]) : a.bareText = [Base16.unit d] := by
  have hspecial : a.isSpecial = true := isSpecial_iff.2 ⟨d, h⟩
  have hdigits := length_digits a
  rw [bareText, if_pos hspecial, hdigits, h, encode_special]
  exact List.drop_left' (by rw [List.length_replicate]; rfl)

theorem bareText_of_not_special {a : Address} (h : a.isSpecial = false) :
    a.bareText = Base16.encode a.bytes := by
  rw [bareText, if_neg (by simp [h])]

/-- A text has 1 to 64 digits. -/
theorem length_bareText (a : Address) : 0 < a.bareText.length ∧ a.bareText.length ≤ longLength := by
  by_cases h : a.isSpecial = true
  · obtain ⟨d, hd⟩ := isSpecial_iff.1 h
    rw [bareText_of_special hd]
    exact ⟨Nat.one_pos, (by decide : 1 ≤ longLength)⟩
  · rw [bareText_of_not_special (by simpa using h), length_digits]
    decide

/-- The digits of a text, padded, are those of the long text. -/
theorem padded_bareText (a : Address) : padded a.bareText = Base16.encode a.bytes := by
  by_cases h : a.isSpecial = true
  · obtain ⟨d, hd⟩ := isSpecial_iff.1 h
    rw [bareText_of_special hd, hd, encode_special]
    rfl
  · rw [bareText_of_not_special (by simpa using h), padded, length_digits, Nat.sub_self]
    rfl

/-- Every unit of a text after the mark is a digit. -/
theorem mem_digitUnits_of_mem_bareText {a : Address} {u : CodeUnit} (h : u ∈ a.bareText) :
    u ∈ Base16.digitUnits := by
  have hmem : u ∈ Base16.encode a.bytes := by
    rw [← padded_bareText, padded]
    exact List.mem_append_right _ h
  exact Base16.mem_digitUnits_of_small (Base16.mem_smallDigitUnits_of_mem_encode hmem)

/-- **The text of an address is read back.** -/
@[simp] theorem relaxed_text (a : Address) : relaxed a.text = .ok a := by
  obtain ⟨hpos, hle⟩ := length_bareText a
  rw [relaxed, text, Base16.unmarked_mark_append, if_neg (by omega), if_neg (by omega),
    padded_bareText, Base16.decode_encode]
  exact dif_pos a.length_bytes

/-- The strict reader takes it too: it has the length of the long form or that of the short one. -/
@[simp] theorem strict_text (a : Address) : strict a.text = .ok a := by
  have hmark : Text.after? Base16.mark a.text = some a.bareText := Text.after?_eq_some.2 rfl
  rw [strict, hmark]
  simp only
  rw [relaxed_text]
  simp only
  by_cases h : a.isSpecial = true
  · obtain ⟨d, hd⟩ := isSpecial_iff.1 h
    have hlen : a.text.length = 3 := by
      rw [text, bareText_of_special hd]
      rfl
    rw [hlen, if_neg (by decide), if_neg (by simp [h]), if_neg (by simp)]
  · have hlen : a.text.length = longLength + 2 := by
      rw [text, bareText_of_not_special (by simpa using h), List.length_append, length_digits]
      rfl
    rw [if_pos hlen]

end Address

end WireCodec

import WireCodec.Proofs.Address.Strict

/-
**The written forms of an address.**

Short or long, with or without the mark and in either case of letters, every form denotes the number
of the address, so the readers give the address back.  The short form is written for the addresses
whose number is a single digit, and no text that the strict reader takes for an address is shorter
than the text of the address.

Main definitions:

* `Address.writtenForms`: the texts of an address, with and without the mark and in capitals.

Main results:

* `Address.denotes_bareText`, `Address.denotes_digits`: the short and the long digits denote the
  number;
* `Address.length_text`: the length of a text tells whether the address is special;
* `Address.texts_readBack`: **every form is read back, and the text is the shortest strict one**.
-/

set_option relaxedAutoImplicit false
set_option autoImplicit false

namespace WireCodec

namespace Address

/-! ### Digits -/

/-- The digits of all 32 bytes denote the number. -/
theorem denotes_digits (a : Address) : Base16.Denotes (Base16.encode a.bytes) a.number :=
  (Base16.writes_encode a.bytes).number_eq.2 rfl

/-- So do the digits of the text, whether it is short or long. -/
theorem denotes_bareText (a : Address) : Base16.Denotes a.bareText a.number := by
  rw [← Base16.denotes_zeros_append (longLength - a.bareText.length), ← padded, padded_bareText]
  exact a.denotes_digits

/-- The digits of an address, with and without the mark and in capitals. -/
def writtenForms (digits : Text) : List Text :=
  [Base16.mark ++ digits, digits, Base16.mark ++ Text.upper digits, Text.upper digits]

/-- The relaxed reader takes all forms of digits that denote the number of an address. -/
theorem relaxed_writtenForms {a : Address} {digits : Text}
    (hlen : 0 < digits.length ∧ digits.length ≤ 64) (h : Base16.Denotes digits a.number) :
    ∀ t ∈ writtenForms digits, relaxed t = .ok a := by
  have hread : ∀ {ds : Text}, ds.length = digits.length → Base16.Denotes ds a.number →
      ∀ t, t = ds ∨ t = Base16.mark ++ ds → relaxed t = .ok a := by
    intro ds hds hdenotes t ht
    have hform : RelaxedForm t ds := ⟨ht, by omega, hds ▸ hlen.2, hdenotes.isDigit⟩
    exact hform.relaxed_eq_iff.2 hdenotes
  have hupper : (Text.upper digits).length = digits.length := List.length_map _
  simp only [writtenForms, List.forall_mem_cons]
  exact ⟨hread rfl h _ (.inr rfl), hread rfl h _ (.inl rfl),
    hread hupper (Base16.denotes_upper.2 h) _ (.inr rfl),
    hread hupper (Base16.denotes_upper.2 h) _ (.inl rfl), List.forall_mem_nil _⟩

/-! ### Lengths -/

theorem length_longText (a : Address) : a.longText.length = 66 := by
  rw [longText, List.length_append, length_digits]
  rfl

/-- The text of a special address has one digit, and that of any other is the long one. -/
theorem length_text (a : Address) : a.text.length = if a.isSpecial then 3 else 66 := by
  by_cases h : a.isSpecial = true
  · obtain ⟨d, hd⟩ := isSpecial_iff.1 h
    rw [if_pos h, text, bareText_of_special hd]
    rfl
  · rw [if_neg h, text, bareText_of_not_special (by simpa using h), ← longText, length_longText]

/-- The strict reader takes no shorter text for an address. -/
theorem length_text_le {a : Address} {t : Text} (h : strict t = .ok a) :
    a.text.length ≤ t.length := by
  obtain ⟨⟨digits, rfl, hlen, -⟩, hrelaxed⟩ := strict_eq_ok_iff.1 h
  obtain ⟨-, -, hdenotes⟩ := denotes_of_relaxed_marked hrelaxed
  rw [length_text, List.length_append, show Base16.mark.length = 2 from rfl]
  rcases hlen with hlong | hshort
  · split <;> omega
  · -- a single digit is read as a special address
    obtain ⟨u, rfl⟩ := List.length_eq_one_iff.1 hshort
    rw [if_pos (isSpecial_iff_number_lt.2 (lt_of_denotes_digit hdenotes)), hshort]

/-! ### Texts -/

theorem strict_longText (a : Address) : strict a.longText = .ok a := by
  have hdigits := a.length_digits
  have hread := relaxed_writtenForms (by rw [hdigits]; decide) a.denotes_digits
  refine strict_eq_ok_iff.2 ⟨⟨_, rfl, .inl hdigits, a.denotes_digits.isDigit⟩, ?_⟩
  exact hread _ List.mem_cons_self

/-- **Every written form is read back, and the text is the shortest strict one.**  The strict reader
takes the text and the long text, the relaxed reader takes both with and without the mark and in
capitals, and the reader of values takes the canonical document.  The short form is that of the
addresses whose number is below 16. -/
theorem texts_readBack (a : Address) :
    (strict a.text = .ok a ∧ strict a.longText = .ok a) ∧
    (∀ digits ∈ [a.bareText, Base16.encode a.bytes], ∀ t ∈ writtenForms digits,
      relaxed t = .ok a) ∧
    (∀ r : Json.Reading, ofValue (.ofDoc r a.toDoc) = .ok a) ∧
    (a.isSpecial = true ↔ a.bytes.number < 16) ∧ (a.isSpecial = true ↔ a.text.length = 3) ∧
    IsLeast {n | ∃ t, strict t = .ok a ∧ t.length = n} a.text.length := by
  refine ⟨⟨a.strict_text, a.strict_longText⟩, ?_, fun r => ?_, isSpecial_iff_number_lt, ?_, ?_, ?_⟩
  · simp only [List.forall_mem_cons]
    refine ⟨relaxed_writtenForms a.length_bareText a.denotes_bareText, ?_, List.forall_mem_nil _⟩
    exact relaxed_writtenForms (by rw [length_digits]; decide) a.denotes_digits
  · rw [toDoc, Json.Value.ofDoc, ofValue, relaxed_text]
    rfl
  · rw [length_text]
    split <;> simp [*]
  · exact ⟨_, a.strict_text, rfl⟩
  · rintro n ⟨t, ht, rfl⟩
    exact length_text_le ht

end Address

end WireCodec

import WireCodec.Address.Json
import WireCodec.Proofs.Address.Relaxed

/-
**The texts that the strict reader takes.**

The strict reader asks the relaxed one first and looks at the length and at the address afterwards.
What it takes are two forms: the mark with 64 digits, and the mark with one digit.

Main definitions:

* `Address.StrictForm`: the mark with 64 digits or with one;
* `Address.StrictVerdict`: what is said about a text.

Main results:

* `Address.isSpecial_iff_number_lt`: the special addresses are those whose number is below 16;
* `Address.strict_of_relaxed_error`, `Address.strict_of_relaxed_ok`: what the strict reader makes of
  the relaxed one's outcome;
* `Address.strict_eq_ok_iff`: the addresses that it gives;
* `Address.strict_verdict`: **the strict form is what is taken**, the verdicts on all texts, and the
  answers to whether a text is an address.
-/

set_option relaxedAutoImplicit false
set_option autoImplicit false

namespace WireCodec

namespace Address

/-! ### Special addresses -/

theorem number_special (d : Fin 16) :
    Bytes.number (List.replicate 31 0 ++ [UInt8.ofNat d.val]) = d.val := by
  revert d
  decide

/-- The special addresses are those whose number is below 16. -/
theorem isSpecial_iff_number_lt {a : Address} : a.isSpecial = true ↔ a.number < 16 := by
  rw [isSpecial_iff]
  constructor
  · rintro ⟨d, hd⟩
    rw [number, hd, number_special]
    exact d.isLt
  · intro hlt
    -- there is only one address with the number
    let special : Address := ⟨List.replicate 31 0 ++ [UInt8.ofNat a.number], rfl⟩
    have hspecial : special.number = a.number := number_special ⟨a.number, hlt⟩
    exact ⟨⟨a.number, hlt⟩, congrArg Address.bytes (eq_of_number_eq hspecial).symm⟩

/-- One digit denotes a number below 16. -/
theorem lt_of_denotes_digit {u : CodeUnit} {n : Nat} (h : Base16.Denotes [u] n) : n < 16 := by
  obtain ⟨ds, hds, rfl⟩ := h
  match ds with
  | [d] => exact d.isLt
  | [] | _ :: _ :: _ => simp at hds

/-! ### The strict reader -/

theorem strict_of_not_marked {t : Text} (h : ¬ Base16.mark <+: t) :
    strict t = .error .markRequired := by
  rw [strict, Base16.after?_mark_eq_none h]

/-- Behind the mark the relaxed reader decides first. -/
theorem strict_of_relaxed_error {digits : Text} {e : Error}
    (h : relaxed (Base16.mark ++ digits) = .error e) :
    strict (Base16.mark ++ digits) = .error e := by
  rw [strict, Text.after?_eq_some.2 rfl, h]

/-- What the relaxed reader gives is taken in long form, and in short form if it is special. -/
theorem strict_of_relaxed_ok {digits : Text} {a : Address}
    (h : relaxed (Base16.mark ++ digits) = .ok a) :
    strict (Base16.mark ++ digits) =
      if digits.length = 64 then .ok a
      else if 16 ≤ a.number then .error .longFormRequired
      else if digits.length = 1 then .ok a
      else .error .paddedShortForm := by
  have hlen : (Base16.mark ++ digits).length = digits.length + 2 := by
    rw [List.length_append]
    exact Nat.add_comm 2 _
  have hspecial : (!a.isSpecial) = true ↔ 16 ≤ a.number := by
    rw [Bool.not_eq_true', Bool.eq_false_iff, Ne, isSpecial_iff_number_lt, Nat.not_lt]
  rw [strict, Text.after?_eq_some.2 rfl, h, hlen]
  simp only [longLength, Nat.add_right_cancel_iff, hspecial, ne_eq, ite_not,
    show digits.length + 2 = 3 ↔ digits.length = 1 by omega]

/-- The text is the mark with 64 digits or with one. -/
def StrictForm (t : Text) : Prop :=
  ∃ digits, t = Base16.mark ++ digits ∧ (digits.length = 64 ∨ digits.length = 1) ∧
    ∀ u ∈ digits, u ∈ Base16.digitUnits

/-- What the relaxed reader gives behind the mark is the number of the digits. -/
theorem denotes_of_relaxed_marked {digits : Text} {a : Address}
    (h : relaxed (Base16.mark ++ digits) = .ok a) :
    digits ≠ [] ∧ digits.length ≤ 64 ∧ Base16.Denotes digits a.number :=
  (denotes_iff (.marked digits)).1 (relaxed_eq_ok_iff.1 h)

/-- The strict reader gives the address of the relaxed one, for texts in strict form only. -/
theorem strict_eq_ok_iff {t : Text} {a : Address} :
    strict t = .ok a ↔ StrictForm t ∧ relaxed t = .ok a := by
  constructor
  · intro h
    by_cases hmark : Base16.mark <+: t
    · obtain ⟨digits, rfl⟩ := hmark
      cases hrelaxed : relaxed (Base16.mark ++ digits) with
      | error e =>
          rw [strict_of_relaxed_error hrelaxed] at h
          cases h
      | ok b =>
          obtain ⟨-, -, hdenotes⟩ := denotes_of_relaxed_marked hrelaxed
          rw [strict_of_relaxed_ok hrelaxed] at h
          split at h
          · next hlong => exact ⟨⟨digits, rfl, .inl hlong, hdenotes.isDigit⟩, h⟩
          · split at h
            · cases h
            · split at h
              · next hshort => exact ⟨⟨digits, rfl, .inr hshort, hdenotes.isDigit⟩, h⟩
              · cases h
    · rw [strict_of_not_marked hmark] at h
      cases h
  · rintro ⟨⟨digits, rfl, hlen, -⟩, hrelaxed⟩
    obtain ⟨-, -, hdenotes⟩ := denotes_of_relaxed_marked hrelaxed
    rw [strict_of_relaxed_ok hrelaxed]
    rcases hlen with hlong | hshort
    · rw [if_pos hlong]
    · obtain ⟨u, rfl⟩ := List.length_eq_one_iff.1 hshort
      have hlt := lt_of_denotes_digit hdenotes
      rw [if_neg (by omega), if_neg (Nat.not_le.2 hlt), if_pos hshort]

/-- Every text in strict form is taken. -/
theorem StrictForm.exists_strict_eq {t : Text} (h : StrictForm t) : ∃ a, strict t = .ok a := by
  obtain ⟨digits, rfl, hlen, hdigits⟩ := h
  have hne : digits ≠ [] := by
    rintro rfl
    simp at hlen
  obtain ⟨a, ha, -⟩ := exists_relaxed_of_digits (.marked digits) hne (by omega) hdigits
  exact ⟨a, strict_eq_ok_iff.2 ⟨⟨digits, rfl, hlen, hdigits⟩, ha⟩⟩

/-! ### Verdicts -/

/-- What is said about a text.  Each row asks that the rows before it do not apply. -/
inductive StrictVerdict (t : Text) : Except Report Address → Prop where
  | markRequired {message : Text} (hmark : ¬ Base16.mark <+: t) :
      StrictVerdict t (.error (.ofReader "leading_zero_x_required" message none))
  /-- What the relaxed reader refuses is refused for the same reason. -/
  | refused {digits : Text} {report : Report} (ht : t = Base16.mark ++ digits)
      (hdigits : digits = [] ∨ 64 < digits.length ∨ ∃ u ∈ digits, u ∉ Base16.digitUnits)
      (hrelaxed : (relaxed t).mapError Report.ofAddressError = .error report) :
      StrictVerdict t (.error report)
  | longFormRequired {digits message : Text} {n : Nat} (ht : t = Base16.mark ++ digits)
      (hlen : 2 ≤ digits.length ∧ digits.length ≤ 63) (hdigits : Base16.Denotes digits n)
      (hnumber : 16 ≤ n) :
      StrictVerdict t (.error (.ofReader "long_form_required_unless_special" message none))
  | paddedShortForm {digits message : Text} {n : Nat} (ht : t = Base16.mark ++ digits)
      (hlen : 2 ≤ digits.length ∧ digits.length ≤ 63) (hdigits : Base16.Denotes digits n)
      (hnumber : n < 16) :
      StrictVerdict t (.error (.ofReader "invalid_padding_zeroes" message none))
  | address {a : Address} (hform : StrictForm t) (hrelaxed : relaxed t = .ok a) :
      StrictVerdict t (.ok a)

/-- The relaxed reader refuses nothing but for the length of the digits or a unit that is none. -/
theorem not_digits_of_relaxed_error {digits : Text} {e : Error}
    (h : relaxed (Base16.mark ++ digits) = .error e) :
    digits = [] ∨ 64 < digits.length ∨ ∃ u ∈ digits, u ∉ Base16.digitUnits := by
  by_contra hnot
  simp only [not_or, Nat.not_lt, not_exists, not_and, not_not] at hnot
  obtain ⟨hne, hlen, hdigits⟩ := hnot
  obtain ⟨a, ha, -⟩ := exists_relaxed_of_digits (.marked digits) hne hlen hdigits
  rw [ha] at h
  cases h

theorem strictVerdict (t : Text) :
    StrictVerdict t ((strict t).mapError Report.ofAddressError) := by
  by_cases hmark : Base16.mark <+: t
  · obtain ⟨digits, rfl⟩ := hmark
    cases hrelaxed : relaxed (Base16.mark ++ digits) with
    | error e =>
        rw [strict_of_relaxed_error hrelaxed]
        refine .refused rfl (not_digits_of_relaxed_error hrelaxed) ?_
        rw [hrelaxed]
        rfl
    | ok a =>
        obtain ⟨hne, hle, hdenotes⟩ := denotes_of_relaxed_marked hrelaxed
        have hpos := List.length_pos_iff.2 hne
        have hstrict := strict_of_relaxed_ok hrelaxed
        by_cases hform : digits.length = 64 ∨ digits.length = 1
        · have hform' : StrictForm (Base16.mark ++ digits) := ⟨digits, rfl, hform, hdenotes.isDigit⟩
          rw [strict_eq_ok_iff.2 ⟨hform', hrelaxed⟩]
          exact .address hform' hrelaxed
        · have hlen : 2 ≤ digits.length ∧ digits.length ≤ 63 := by omega
          rw [if_neg (by omega)] at hstrict
          by_cases hnumber : 16 ≤ a.number
          · rw [hstrict, if_pos hnumber]
            exact .longFormRequired rfl hlen hdenotes hnumber
          · rw [hstrict, if_neg hnumber, if_neg (by omega)]
            exact .paddedShortForm rfl hlen hdenotes (Nat.not_le.1 hnumber)
  · rw [strict_of_not_marked hmark]
    exact .markRequired hmark

/-- **The strict form is what is taken**, and it is taken as the relaxed reader takes it.  All texts
have their verdict, and asking whether a text is an address, in either way, has an answer for all of
them, which says what the reader says. -/
theorem strict_verdict (t : Text) :
    ((∃ a, strict t = .ok a) ↔ StrictForm t) ∧
    (∀ a, strict t = .ok a ↔ StrictForm t ∧ relaxed t = .ok a) ∧
    StrictVerdict t ((strict t).mapError Report.ofAddressError) ∧
    (∃ v, validity false t = .ok v ∧ v.Reports ((strict t).mapError Report.ofAddressError)) ∧
    ∃ v, validity true t = .ok v ∧ v.Reports ((relaxed t).mapError Report.ofAddressError) := by
  refine ⟨⟨?_, StrictForm.exists_strict_eq⟩, fun a => strict_eq_ok_iff, strictVerdict t, ?_, ?_⟩
  · rintro ⟨a, ha⟩
    exact (strict_eq_ok_iff.1 ha).1
  · exact Validity.exists_reports (strict t) .address
  · exact Validity.exists_reports (relaxed t) .address

end Address

end WireCodec

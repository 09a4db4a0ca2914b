import WireCodec.Proofs.Address
import WireCodec.Proofs.Base16.Number
import WireCodec.Proofs.Decoding

/-
**The number that the relaxed reader reads.**

1 to 64 digits denote a number, and the 32 bytes of an address denote one too.  The relaxed reader
fills the digits up with zeros and reads them in pairs, which leaves the number as it is.  So an
address is its number, and two texts are read as one address exactly if they denote one number.

Main definitions:

* `Address.number`: the number of an address;
* `Address.Denotes`: a text in relaxed form denotes a number;
* `Address.RelaxedVerdict`: what is said about the digits of a text.

Main results:

* `Address.eq_of_number_eq`: an address is its number;
* `Address.relaxed_eq_ok_iff`: **the relaxed reader reads the address with the number that is
  denoted**;
* `Address.relaxed_positional`: the verdicts on all texts, and when two texts give one address.
-/

set_option relaxedAutoImplicit false
set_option autoImplicit false

namespace WireCodec

namespace Address

/-! ### Numbers of addresses -/

/-- The number that the bytes of an address denote. -/
def number (a : Address) : Nat := a.bytes.number

/-- An address is its number. -/
theorem eq_of_number_eq {a b : Address} (h : a.number = b.number) : a = b :=
  Address.ext (Bytes.eq_of_number_eq (a.length_bytes.trans b.length_bytes.symm) h)

/-- The text is 1 to 64 digits, perhaps with the mark in front, and they denote the number. -/
def Denotes (t : Text) (n : Nat) : Prop :=
  ∃ digits, RelaxedForm t digits ∧ Base16.Denotes digits n

theorem denotes_iff {t digits : Text} {n : Nat} (h : Base16.Unmarks t digits) :
    Denotes t n ↔ digits ≠ [] ∧ digits.length ≤ 64 ∧ Base16.Denotes digits n := by
  obtain rfl := Base16.unmarks_iff.1 h
  constructor
  · rintro ⟨digits, hform, hdigits⟩
    rw [hform.unmarked_eq]
    exact ⟨List.length_pos_iff.1 hform.pos, hform.length_le, hdigits⟩
  · rintro ⟨hne, hlen, hdigits⟩
    exact ⟨_, ⟨marked_unmarked t, List.length_pos_iff.2 hne, hlen, hdigits.isDigit⟩, hdigits⟩

/-- The zeros that fill the digits up leave the number as it is. -/
theorem RelaxedForm.relaxed_eq_iff {t digits : Text} (h : RelaxedForm t digits) {a : Address} :
    relaxed t = .ok a ↔ Base16.Denotes digits a.number := by
  obtain ⟨b, hb, hwrites⟩ := h.relaxed_eq
  have hnumber : ∀ n, Base16.Denotes digits n ↔ b.number = n := by
    intro n
    rw [← Base16.denotes_zeros_append (longLength - digits.length), ← padded, hwrites.number_eq,
      number]
  rw [hb, hnumber, Except.ok.injEq]
  constructor
  · rintro rfl
    rfl
  · exact eq_of_number_eq

/-- **The relaxed reader reads the address with the number that is denoted**, and refuses a text
that denotes none. -/
theorem relaxed_eq_ok_iff {t : Text} {a : Address} : relaxed t = .ok a ↔ Denotes t a.number := by
  constructor
  · intro h
    by_cases hform : ∃ digits, RelaxedForm t digits
    · obtain ⟨digits, hdigits⟩ := hform
      exact ⟨digits, hdigits, hdigits.relaxed_eq_iff.1 h⟩
    · obtain ⟨e, he, -⟩ := exists_error_of_not_relaxedForm (not_exists.1 hform)
      rw [he] at h
      cases h
  · rintro ⟨digits, hdigits, hnumber⟩
    exact hdigits.relaxed_eq_iff.2 hnumber

/-! ### Verdicts -/

/-- What is said about a text with the given units behind the mark.  The length comes first, and
what is no digit is reported with the fault of the reader of digit pairs. -/
inductive RelaxedVerdict (digits : Text) : Except Report Address → Prop where
  | tooShort {message : Text} (hnil : digits = []) :
      RelaxedVerdict digits (.error (.ofReader "too_short" message none))
  | tooLong {message : Text} (hlen : 64 < digits.length) :
      RelaxedVerdict digits (.error (.ofReader "too_long" message none))
  | notDigits {message : Text} {fault : Base16.Fault} (hne : digits ≠ [])
      (hlen : digits.length ≤ 64) (hunit : ∃ u ∈ digits, u ∉ Base16.digitUnits)
      (hfault : Base16.decode (padded digits) = .error fault) :
      RelaxedVerdict digits
        (.error (.ofReader "invalid_hex_chars" message (some (.ofMessage fault.message))))
  | address {a : Address} {n : Nat} (hne : digits ≠ []) (hlen : digits.length ≤ 64)
      (hdigits : Base16.Denotes digits n) (hnumber : a.bytes.number = n) :
      RelaxedVerdict digits (.ok a)

/-- A text of digits only is read. -/
theorem exists_relaxed_of_digits {t digits : Text} (h : Base16.Unmarks t digits)
    (hne : digits ≠ []) (hlen : digits.length ≤ 64)
    (hdigits : ∀ u ∈ digits, u ∈ Base16.digitUnits) :
    ∃ a, relaxed t = .ok a ∧ Base16.Denotes digits a.number := by
  obtain rfl := Base16.unmarks_iff.1 h
  have hform : RelaxedForm t (Base16.unmarked t) :=
    ⟨marked_unmarked t, List.length_pos_iff.2 hne, hlen, hdigits⟩
  obtain ⟨a, ha, -⟩ := hform.relaxed_eq
  exact ⟨a, ha, hform.relaxed_eq_iff.1 ha⟩

/-- A unit that is no digit is a fault of the reader of digit pairs. -/
theorem exists_fault_of_not_digit {digits : Text} (h : ∃ u ∈ digits, u ∉ Base16.digitUnits) :
    ∃ fault, Base16.decode (padded digits) = .error fault := by
  obtain ⟨u, hu, hdigit⟩ := h
  cases hdecode : Base16.decode (padded digits) with
  | error fault => exact ⟨fault, rfl⟩
  | ok bytes =>
      have hdigits := (Base16.exists_writes_iff.1 ⟨bytes, Base16.decode_eq_ok_iff.1 hdecode⟩).2
      exact absurd (hdigits u (List.mem_append_right _ hu)) hdigit

theorem relaxedVerdict {t digits : Text} (h : Base16.Unmarks t digits) :
    RelaxedVerdict digits ((relaxed t).mapError Report.ofAddressError) := by
  have hunmarked := Base16.unmarks_iff.1 h
  by_cases hne : digits = []
  · rw [relaxed, hunmarked, hne, if_pos List.length_nil]
    exact .tooShort rfl
  have hpos : ¬ digits.length = 0 := fun hlen => hne (List.length_eq_zero_iff.1 hlen)
  by_cases hlen : digits.length ≤ 64
  · by_cases hdigits : ∀ u ∈ digits, u ∈ Base16.digitUnits
    · obtain ⟨a, ha, hnumber⟩ := exists_relaxed_of_digits h hne hlen hdigits
      rw [ha]
      exact .address hne hlen hnumber rfl
    · have hunit : ∃ u ∈ digits, u ∉ Base16.digitUnits := by simpa using hdigits
      obtain ⟨fault, hfault⟩ := exists_fault_of_not_digit hunit
      have hshort : ¬ longLength < digits.length := Nat.not_lt.2 hlen
      rw [relaxed, hunmarked, if_neg hpos, if_neg hshort, hfault]
      exact .notDigits hne hlen hunit hfault
  · have hlong : longLength < digits.length := Nat.not_le.1 hlen
    rw [relaxed, hunmarked, if_neg hpos, if_pos hlong]
    exact .tooLong hlong

/-- **The verdict on every text, and when two texts give one address**: exactly if they denote one
number, whether they carry the mark or not, whatever the case of their letters and however many
zeros stand in front. -/
theorem relaxed_positional {t digits : Text} (h : Base16.Unmarks t digits) :
    RelaxedVerdict digits ((relaxed t).mapError Report.ofAddressError) ∧
    ∀ {t' digits' : Text}, Base16.Unmarks t' digits' →
      ∀ a b, relaxed t = .ok a → relaxed t' = .ok b →
        (a.equals b = true ↔ ∃ n, Base16.Denotes digits n ∧ Base16.Denotes digits' n) := by
  refine ⟨relaxedVerdict h, fun h' a b ha hb => ?_⟩
  obtain ⟨-, -, hnumber⟩ := (denotes_iff h).1 (relaxed_eq_ok_iff.1 ha)
  obtain ⟨-, -, hnumber'⟩ := (denotes_iff h').1 (relaxed_eq_ok_iff.1 hb)
  rw [equals_iff]
  constructor
  · rintro rfl
    exact ⟨a.number, hnumber, hnumber'⟩
  · rintro ⟨n, hn, hn'⟩
    exact eq_of_number_eq ((hnumber.unique hn).trans (hn'.unique hnumber'))

/-- Ten, written with the mark, a zero and a capital, and as a small letter alone. -/
theorem relaxed_positional_ten :
    let a : Address := ⟨List.replicate 31 0 ++ [10], rfl⟩
    Base16.Unmarks "0x0A" "0A" ∧ Base16.Unmarks "a" "a" ∧
      relaxed "0x0A" = .ok a ∧ relaxed "a" = .ok a ∧
      RelaxedVerdict "0A" (.ok a) ∧ ∃ n, Base16.Denotes "0A" n ∧ Base16.Denotes "a" n := by
  intro a
  have hmarked : Base16.Unmarks "0x0A" "0A" := Base16.unmarks_iff.2 (by decide)
  have hbare : Base16.Unmarks "a" "a" := Base16.unmarks_iff.2 (by decide)
  have ha : relaxed "0x0A" = .ok a := by decide +kernel
  have hb : relaxed "a" = .ok a := by decide +kernel
  obtain ⟨hverdict, hequal⟩ := relaxed_positional hmarked
  rw [ha] at hverdict
  exact ⟨hmarked, hbare, ha, hb, hverdict, (hequal hbare a a ha hb).1 (equals_iff.2 rfl)⟩

end Address

end WireCodec

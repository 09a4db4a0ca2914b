import WireCodec.Proofs.Base16.Number
import WireCodec.Proofs.Identity

/-
**The verdict of the reader of base sixteen.**

An empty text is refused first, then an odd number of units behind the mark, whatever they are, and
last a unit that is no digit.  Any other text is read, and written again it has the mark and small
letters, so nothing but the mark and the case of letters is lost on the way.

Main definitions:

* `Hex.Verdict`: what is said about a text with the given units behind the mark.

Main results:

* `Base16.Writes.encode_eq`: digits that are read and written again are small;
* `Hex.ofText_of_odd`, `Hex.ofText_of_fault`, `Hex.exists_ofText_of_digits`: one row of the verdict
  each;
* `Hex.ofText_verdict`: **the verdict on every text**, and that an answer says the same.
-/

set_option relaxedAutoImplicit false
set_option autoImplicit false

namespace WireCodec

/-! ### Small letters -/

namespace Base16

/-- A digit is written as the small form of any unit that it is read from. -/
theorem lowerUnit_of_digit? {u : CodeUnit} {d : Fin 16} (h : digit? u = some d) :
    Text.lowerUnit u = unit d := by
  have hall : digitUnits.all (fun u => (digit? u).all fun d => Text.lowerUnit u == unit d) := by
    decide
  have hu := List.all_eq_true.1 hall u (isDigit_iff.1 (isDigit_of_digit? h))
  rw [h] at hu
  exact eq_of_beq hu

/-- The two digits of a byte are those that it is made of. -/
theorem pair_ofNat (x y : Fin 16) : pair (UInt8.ofNat (16 * x.val + y.val)) = [unit x, unit y] := by
  have hbyte : (UInt8.ofNat (16 * x.val + y.val)).toNat = 16 * x.val + y.val := by
    rw [UInt8.toNat_ofNat']
    exact Nat.mod_eq_of_lt (by omega)
  have hupper : (16 * x.val + y.val) / 16 = x.val := by omega
  have hlower : (16 * x.val + y.val) % 16 = y.val := by omega
  simp only [pair, hbyte, hupper, hlower]

/-- **Digits that are read and written again are small.** -/
theorem Writes.encode_eq {t : Text} {bytes : Bytes} (h : Writes t bytes) :
    encode bytes = Text.lower t := by
  match t with
  | [] =>
      rw [writes_nil.1 h]
      rfl
  | [u] =>
      have heven := h.length_even
      cases heven
  | u :: v :: t =>
      obtain ⟨x, y, rest, hx, hy, hrest, rfl⟩ := writes_cons_cons.1 h
      have ih := hrest.encode_eq
      rw [encode] at ih
      rw [encode, List.flatMap_cons, ih, pair_ofNat, Text.lower, Text.lower, List.map_cons,
        List.map_cons, lowerUnit_of_digit? hx, lowerUnit_of_digit? hy]
      rfl

end Base16

namespace Hex

/-! ### Rows -/

/-- What is said about a text with the given units behind the mark.  The rows exclude each other. -/
inductive Verdict (t digits : Text) : Except Report Hex → Prop where
  | tooShort (hnil : t = []) :
      Verdict t digits (.error (.ofReader "too_short" Error.tooShort.message none))
  | oddLength (hne : t ≠ []) (hodd : digits.length % 2 = 1) :
      Verdict t digits (.error (.ofReader "invalid_length" Error.oddLength.message none))
  | notDigits {fault : Base16.Fault} (hne : t ≠ []) (heven : digits.length % 2 = 0)
      (hunit : ∃ u ∈ digits, u ∉ Base16.digitUnits) (hfault : Base16.decode digits = .error fault) :
      Verdict t digits (.error (.ofReader "invalid_hex_chars" (Error.notDigits fault).message
        (some (.ofMessage fault.message))))
  | bytes {h : Hex} (hne : t ≠ []) (heven : digits.length % 2 = 0)
      (hdigits : ∀ u ∈ digits, u ∈ Base16.digitUnits) (hlen : h.bytes.length = digits.length / 2)
      (htext : h.text = Base16.mark ++ Text.lower digits) : Verdict t digits (.ok h)

section

variable {t digits : Text} (h : Base16.Unmarks t digits) (hne : t ≠ [])
include h hne

theorem ofText_of_odd (hodd : digits.length % 2 = 1) : ofText t = .error .oddLength := by
  rw [ofText, if_neg hne, Base16.unmarks_iff.1 h]
  exact if_pos (by omega)

theorem ofText_of_fault (heven : digits.length % 2 = 0) {fault : Base16.Fault}
    (hfault : Base16.decode digits = .error fault) : ofText t = .error (.notDigits fault) := by
  rw [ofText, if_neg hne, Base16.unmarks_iff.1 h]
  simp only [heven, hfault]
  rfl

/-- Digit pairs are read, and written again with the mark and small letters. -/
theorem exists_ofText_of_digits (heven : digits.length % 2 = 0)
    (hdigits : ∀ u ∈ digits, u ∈ Base16.digitUnits) :
    ∃ b, ofText t = .ok b ∧ b.bytes.length = digits.length / 2 ∧
      b.text = Base16.mark ++ Text.lower digits := by
  obtain ⟨bytes, hw⟩ := Base16.exists_writes_iff.2 ⟨heven, hdigits⟩
  have hlen := hw.length_eq
  refine ⟨⟨bytes⟩, ?_, ?_, ?_⟩
  · rw [ofText_eq_ok_iff, Base16.unmarks_iff.1 h]
    exact ⟨hne, hw⟩
  · rw [hlen, Nat.mul_div_cancel_left _ Nat.two_pos]
  · rw [text, bareText, hw.encode_eq]

end

/-! ### The verdict -/

section

variable {t digits : Text} (h : Base16.Unmarks t digits)
include h

/-- One row of the verdict applies to the text. -/
theorem verdict_of_unmarks : Verdict t digits ((ofText t).mapError Report.ofHexError) := by
  by_cases hnil : t = []
  · subst hnil
    exact .tooShort rfl
  rcases Nat.mod_two_eq_zero_or_one digits.length with heven | hodd
  · by_cases hdigits : ∀ u ∈ digits, u ∈ Base16.digitUnits
    · obtain ⟨b, hb, hlen, htext⟩ := exists_ofText_of_digits h hnil heven hdigits
      rw [hb]
      exact .bytes hnil heven hdigits hlen htext
    · cases hdecode : Base16.decode digits with
      | ok bytes =>
          exact absurd (Base16.exists_writes_iff.1 ⟨bytes, Base16.decode_eq_ok_iff.1 hdecode⟩).2
            hdigits
      | error fault =>
          rw [ofText_of_fault h hnil heven hdecode]
          exact .notDigits hnil heven (by simpa using hdigits) hdecode
  · rw [ofText_of_odd h hnil hodd]
    exact .oddLength hnil hodd

/-- Each row says what the reader does. -/
theorem Verdict.eq {outcome : Except Report Hex} (hverdict : Verdict t digits outcome) :
    (ofText t).mapError Report.ofHexError = outcome := by
  cases hverdict with
  | tooShort hnil =>
      subst hnil
      rfl
  | oddLength hne hodd =>
      rw [ofText_of_odd h hne hodd]
      rfl
  | notDigits hne heven _ hfault =>
      rw [ofText_of_fault h hne heven hfault]
      rfl
  | bytes hne heven hdigits _ htext =>
      obtain ⟨b, hb, -, hbtext⟩ := exists_ofText_of_digits h hne heven hdigits
      rw [hb, text_injective (hbtext.trans htext.symm)]
      rfl

/-- **The verdict on every text.**  Only an empty text is too short.  Of any other, an odd number of
units behind the mark is noticed first, then a unit that is no digit, over the fault of the reader
of digit pairs, and what is left is read as half as many bytes, whose text is the mark and the same
digits with small letters.  There is an answer for every text, and it says the same. -/
theorem ofText_verdict :
    (∀ outcome, (ofText t).mapError Report.ofHexError = outcome ↔ Verdict t digits outcome) ∧
    ∃ v, validity t = .ok v ∧ v.Reports ((ofText t).mapError Report.ofHexError) := by
  refine ⟨fun outcome => ⟨?_, fun hverdict => hverdict.eq h⟩,
    Validity.exists_reports (ofText t) .hex⟩
  rintro rfl
  exact verdict_of_unmarks h

end

/-- A second mark is no digits, and letters of both cases are. -/
theorem ofText_verdict_twiceMarked :
    let fault : Base16.Fault := .notDigits (Text.unit '0') (Text.unit 'x') 0
    Base16.Unmarks "0x0xAb" "0xAb" ∧
    (ofText "0x0xAb").mapError Report.ofHexError = .error (.ofReader "invalid_hex_chars"
      (Error.notDigits fault).message (some (.ofMessage fault.message))) ∧
    Base16.Unmarks "0xAb" "Ab" ∧ (ofText "0xAb").mapError Report.ofHexError = .ok ⟨[0xAB]⟩ ∧
    ∃ v, validity "0xAb" = .ok v := by
  intro fault
  have htwice : Base16.Unmarks "0x0xAb" "0xAb" := Base16.unmarks_iff.2 (by decide)
  have honce : Base16.Unmarks "0xAb" "Ab" := Base16.unmarks_iff.2 (by decide)
  obtain ⟨hverdict, -⟩ := ofText_verdict htwice
  obtain ⟨hverdict', v, hv, -⟩ := ofText_verdict honce
  have hunit : ∃ u ∈ ("0xAb" : Text), u ∉ Base16.digitUnits :=
    ⟨Text.unit 'x', by decide, by decide⟩
  have hfault : Base16.decode "0xAb" = .error fault := by decide
  have hwrites : Base16.Writes "Ab" [0xAB] := Base16.decode_eq_ok_iff.1 (by decide)
  have hdigits := (Base16.exists_writes_iff.1 ⟨_, hwrites⟩).2
  have htext : (Hex.mk [0xAB]).text = Base16.mark ++ Text.lower "Ab" := by decide
  exact ⟨htwice, (hverdict _).2 (.notDigits nofun rfl hunit hfault), honce,
    (hverdict' _).2 (.bytes nofun rfl hdigits rfl htext), v, hv⟩

end Hex

end WireCodec

import WireCodec.Proofs.Binary64.Nearest
import WireCodec.Proofs.U64.Range

/-
**The lossless and the plain reading of a number token.**

The lossless reading keeps a token as it is written, and the number is taken from its digits.  The
plain reading rounds it to double precision first, and the number is taken if what comes out is a
safe integer.  Rounding is the only step that can change a value.  It is exact below `2 ^ 53` and
leads no greater integer there, however long the token is, so the two readings have different bounds
and otherwise the same outcome.

Main definitions:

* `Json.Numeral.IsDigits`: a token without a sign, a point and an exponent part;
* `U64.TakenUpTo`: an outcome is the number itself up to a bound, and past it a refusal.

Main results:

* `Json.Numeral.isDigits_of_text_eq_spell`: what is written with digits only has no other parts;
* `Json.Numeral.IsDigits.roundsTo_iff`: the plain reading rounds to the nearest number;
* `U64.takenUpTo_token`, `U64.takenUpTo_double`: the two outcomes for digits;
* `U64.readings_agree`: **the two readings never take a token for different numbers**.
-/

set_option relaxedAutoImplicit false
set_option autoImplicit false

namespace WireCodec

open Json (Value Doc Numeral Reading)

/-! ### Tokens of digits -/

namespace Json.Numeral

variable {n : Numeral}

/-- A token without a sign, a point and an exponent part. -/
structure IsDigits (n : Numeral) : Prop where
  negative : n.negative = false
  fraction : n.fraction = none
  exponent : n.exponent = none

theorem IsDigits.text_eq (h : n.IsDigits) : n.text = Decimal.spell n.whole := by
  obtain ⟨negative, whole, fraction, exponent⟩ := n
  obtain ⟨rfl, rfl, rfl⟩ := h
  simp [text, fractionText, exponentText]

/-- What is written with digits only has no other parts, for these begin with other units. -/
theorem isDigits_of_text_eq_spell {ds : List Digit} (h : n.text = Decimal.spell ds) :
    n.IsDigits := by
  have hdigits : ∀ u ∈ n.text, (Digit.ofUnit? u).isSome := by
    intro u hu
    rw [h] at hu
    obtain ⟨d, -, rfl⟩ := List.mem_map.1 hu
    rw [Digit.ofUnit?_unit, Option.isSome_some]
  obtain ⟨negative, whole, fraction, exponent⟩ := n
  simp only [text, List.mem_append] at hdigits
  refine ⟨?_, ?_, ?_⟩
  · cases negative with
    | false => rfl
    | true => exact absurd (hdigits Decimal.minus (by simp)) (by decide)
  · cases fraction with
    | none => rfl
    | some ds => exact absurd (hdigits (Text.unit '.') (by simp [fractionText])) (by decide)
  · cases exponent with
    | none => rfl
    | some e =>
        have hmem := hdigits (if e.capital then Text.unit 'E' else Text.unit 'e')
          (by simp [exponentText, Exponent.text])
        exfalso
        revert hmem
        cases e.capital <;> decide

theorem IsDigits.roundsTo (h : n.IsDigits) :
    Binary64.RoundsTo (Decimal.number n.whole) 1 n.double := by
  have hround := Binary64.roundsTo_ofDecimal (Decimal.number n.whole) 0
  have hone : Decimal.tenTo 0 = 1 := rfl
  obtain ⟨negative, whole, fraction, exponent⟩ := n
  obtain ⟨rfl, rfl, rfl⟩ := h
  simpa [double, hone] using hround

/-- **Digits are rounded to the nearest number**, and to no other. -/
theorem IsDigits.roundsTo_iff (h : n.IsDigits) {x : Binary64} :
    Binary64.RoundsTo (Decimal.number n.whole) 1 x ↔ x = n.double := by
  constructor
  · exact fun hx => hx.unique Nat.one_pos h.roundsTo
  · rintro rfl
    exact h.roundsTo

end Json.Numeral

namespace U64

/-! ### Bounds -/

/-- The outcome is the number itself up to a bound, and past it the refusal of a malformed
number. -/
inductive TakenUpTo (bound n : Nat) : Except Failure U64 → Prop where
  | taken {u : U64} (hn : n ≤ bound) (hvalue : u.value = n) : TakenUpTo bound n (.ok u)
  | refused {e : DecodeError} (hn : bound < n) (hreason : e.reason = .malformedNumber) :
      TakenUpTo bound n (.error (.decode e))

namespace TakenUpTo

variable {bound n : Nat} {outcome : Except Failure U64} (h : TakenUpTo bound n outcome)
include h

/-- What is taken is the number. -/
theorem value_eq {u : U64} (hu : outcome = .ok u) : u.value = n := by
  cases h with
  | taken _ hvalue => rw [← Except.ok.inj hu, hvalue]
  | refused => cases hu

theorem exists_ok (hn : n ≤ bound) : ∃ u, outcome = .ok u ∧ u.value = n := by
  cases h with
  | taken _ hvalue => exact ⟨_, rfl, hvalue⟩
  | refused hlt => exact absurd hn (Nat.not_le.2 hlt)

theorem ne_ok (hn : bound < n) (u : U64) : outcome ≠ .ok u := by
  cases h with
  | taken hle => exact absurd hn (Nat.not_lt.2 hle)
  | refused => exact nofun

end TakenUpTo

/-- An outcome is known if the numbers that are taken are, and every failure is such a refusal. -/
theorem takenUpTo_of_eq_ok_iff {bound n : Nat} (hbound : bound ≤ maxU64)
    {outcome : Except Failure U64} (hok : ∀ u, outcome = .ok u ↔ n = u.value ∧ n ≤ bound)
    (herror : ∀ failure, outcome = .error failure →
      ∃ e, failure = .decode e ∧ e.reason = .malformedNumber) :
    TakenUpTo bound n outcome := by
  cases outcome with
  | ok u =>
      obtain ⟨rfl, hle⟩ := (hok u).1 rfl
      exact .taken hle rfl
  | error failure =>
      obtain ⟨e, rfl, hreason⟩ := herror failure rfl
      refine .refused (Nat.not_le.1 fun hle => ?_) hreason
      cases (hok ⟨n, hle.trans hbound⟩).2 ⟨rfl, hle⟩

/-! ### The lossless reading -/

section

variable {n : Numeral}

theorem ofValue_token (n : Numeral) : ofValue (.token n) = (ofText n.text).mapError .decode :=
  ofValue_of_literal? (d := .number n) rfl

theorem refusal_of_token {failure : Failure} (h : ofValue (.token n) = .error failure) :
    ∃ e, failure = .decode e ∧ e.reason = .malformedNumber := by
  rw [ofValue_token] at h
  obtain ⟨e, hread, rfl⟩ := exists_of_mapError_eq_error h
  exact ⟨e, rfl, (reason_of_ofText_eq_error hread).1⟩

/-- Only digits are taken. -/
theorem isDigits_of_token {u : U64} (h : ofValue (.token n) = .ok u) : n.IsDigits := by
  rw [ofValue_token, mapError_eq_ok_iff] at h
  obtain ⟨ds, -, htext, -⟩ := ofText_eq_ok_iff.1 h
  exact Numeral.isDigits_of_text_eq_spell htext

variable (htoken : n.IsToken) (hdigits : n.IsDigits)
include htoken hdigits

theorem ofValue_token_eq_ok_iff {u : U64} :
    ofValue (.token n) = .ok u ↔ Decimal.number n.whole = u.value := by
  have hread : Decimal.read? (Decimal.spell n.whole) = some (Decimal.number n.whole) :=
    Decimal.read?_eq_some_iff.2 ⟨_, htoken.whole.ne_nil, rfl, rfl⟩
  rw [ofValue_token, mapError_eq_ok_iff, ofText_eq_ok_iff, ← Decimal.read?_eq_some_iff,
    hdigits.text_eq, hread, Option.some_inj]

/-- **Digits are taken up to the greatest number of 64 bits.** -/
theorem takenUpTo_token :
    TakenUpTo (2 ^ 64 - 1) (Decimal.number n.whole) (ofValue (.token n)) := by
  have hmax : maxU64 = 2 ^ 64 - 1 := by decide
  refine takenUpTo_of_eq_ok_iff hmax.ge (fun u => ?_) fun _ => refusal_of_token
  rw [ofValue_token_eq_ok_iff htoken hdigits]
  have hle := u.value_le
  omega

end

/-! ### The plain reading -/

theorem refusal_of_double {x : Binary64} {failure : Failure}
    (h : ofValue (.double x) = .error failure) :
    ∃ e, failure = .decode e ∧ e.reason = .malformedNumber := by
  rw [ofValue] at h
  split at h
  · obtain ⟨e, hread, rfl⟩ := exists_of_mapError_eq_error h
    exact ⟨e, rfl, reason_of_ofInt_eq_error hread⟩
  · exact ⟨_, (Except.error.inj h).symm, rfl⟩

/-- **A rounded integer is taken up to the greatest safe one, and it was not rounded.** -/
theorem takenUpTo_double {n : Nat} {x : Binary64} (h : x.RoundsTo n 1) :
    TakenUpTo (2 ^ 53 - 1) n (ofValue (.double x)) := by
  refine takenUpTo_of_eq_ok_iff (by decide) (fun u => ?_) fun _ => refusal_of_double
  rw [ofValue_double_eq_ok_iff]
  constructor
  · rintro ⟨hdenotes, hle⟩
    have hvalue := (h.denotes_iff (by omega)).1 hdenotes
    omega
  · rintro ⟨rfl, hle⟩
    exact ⟨h.denotes (by omega), hle⟩

/-! ### Both readings -/

/-- **The two readings never take a token for different numbers.**  A token of digits is kept by the
lossless reading and taken up to 2^64 - 1; the plain reading rounds it to the nearest double
precision number, and it is taken up to 2^53 - 1.  Past its bound either refuses it as a malformed
number.  A token with a sign, a point or an exponent part is refused after the lossless reading.  So
what both take is one number, and what either takes of digits is the number that they denote. -/
theorem readings_agree {n : Numeral} (h : n.IsToken) (reason : DecodeReason) (typeName : Text) :
    readJson n.text reason typeName = .ok (.token n) ∧
    Value.read .plain n.text = .ok (.double n.double) ∧
    (n.IsDigits →
      n.text = Decimal.spell n.whole ∧
      (∀ x : Binary64, x.RoundsTo (Decimal.number n.whole) 1 ↔ x = n.double) ∧
      TakenUpTo (2 ^ 64 - 1) (Decimal.number n.whole) (ofValue (.token n)) ∧
      TakenUpTo (2 ^ 53 - 1) (Decimal.number n.whole) (ofValue (.double n.double))) ∧
    (¬ n.IsDigits →
      ∃ e, ofValue (.token n) = .error (.decode e) ∧ e.reason = .malformedNumber) ∧
    (∀ u u', ofValue (.token n) = .ok u → ofValue (.double n.double) = .ok u' → u = u') ∧
    (n.IsDigits → ∀ u, ofValue (.token n) = .ok u ∨ ofValue (.double n.double) = .ok u →
      u.value = Decimal.number n.whole) := by
  have hwritten : ∀ r : Reading, Json.WrittenSpaced r.admits (.number n) n.text := fun r =>
    (Json.Written.number h).spaced
  have hvalue : ∀ u, n.IsDigits →
      ofValue (.token n) = .ok u ∨ ofValue (.double n.double) = .ok u →
        u.value = Decimal.number n.whole := by
    rintro u hdigits (hu | hu)
    · exact (takenUpTo_token h hdigits).value_eq hu
    · exact (takenUpTo_double hdigits.roundsTo).value_eq hu
  refine ⟨readJson_eq_ok_iff.2 ⟨_, hwritten .lossless, rfl⟩,
    Value.read_of_written (hwritten .plain), fun hdigits => ?_, fun hdigits => ?_,
    fun u u' hu hu' => ?_, fun hdigits u hu => hvalue u hdigits hu⟩
  · exact ⟨hdigits.text_eq, fun _ => hdigits.roundsTo_iff, takenUpTo_token h hdigits,
      takenUpTo_double hdigits.roundsTo⟩
  · cases hread : ofValue (.token n) with
    | ok u => exact absurd (isDigits_of_token hread) hdigits
    | error failure =>
        obtain ⟨e, rfl, hreason⟩ := refusal_of_token hread
        exact ⟨e, rfl, hreason⟩
  · have hdigits := isDigits_of_token hu
    exact U64.ext ((hvalue u hdigits (.inl hu)).trans (hvalue u' hdigits (.inr hu')).symm)

/-- The first integer that is rounded to another one, which only the lossless reading takes, and an
integer with a point, which it refuses. -/
theorem readings_agree_rounded :
    let large : Numeral := .ofNat (2 ^ 53 + 1)
    let pointed : Numeral := ⟨false, [1], some [0], none⟩
    (large.IsToken ∧ large.double = .finite false (2 ^ 52) 1 ∧
      ofValue (.token large) = .ok ⟨2 ^ 53 + 1, by decide⟩ ∧
      ∀ u, ofValue (.double large.double) ≠ .ok u) ∧
    pointed.IsToken ∧ readJson "1.0" .malformedNumber "u64" = .ok (.token pointed) ∧
      ∃ e, ofValue (.token pointed) = .error (.decode e) ∧ e.reason = .malformedNumber := by
  intro large pointed
  have hlarge : large.IsToken := Numeral.isToken_ofNat _
  have hpointed : pointed.IsToken := ⟨.inr ⟨1, [], rfl, by decide⟩, by decide, nofun⟩
  obtain ⟨-, -, hdigits, -⟩ := readings_agree hlarge .malformedNumber "u64"
  obtain ⟨hread, -, -, hother, -⟩ := readings_agree hpointed .malformedNumber "u64"
  obtain ⟨-, -, hlossless, hplain⟩ := hdigits ⟨rfl, rfl, rfl⟩
  have hnumber : Decimal.number large.whole = 2 ^ 53 + 1 := Decimal.number_digits _
  rw [hnumber] at hlossless hplain
  have hpoint : ¬ pointed.IsDigits := fun hpointed => by cases hpointed.fraction
  obtain ⟨u, hu, hvalue⟩ := hlossless.exists_ok (by decide)
  exact ⟨⟨hlarge, by decide +kernel, hu.trans (congrArg _ (U64.ext hvalue)),
    hplain.ne_ok (by decide)⟩, hpointed, hread, hother hpoint⟩

end U64

end WireCodec

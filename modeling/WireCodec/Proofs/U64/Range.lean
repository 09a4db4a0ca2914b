import WireCodec.EventGuid
import WireCodec.Proofs.Binary64
import WireCodec.Proofs.U64.Agreement

/-
**Which numbers that are given become numbers of 64 bits.**

The bounds are checked for integers, for literals and for double precision numbers, each time in
another way.  An integer of any size passes exactly if its decimal text does, and a number in double
precision exactly if it is an integer from 0 to 2^53 - 1; an identifier takes the same numbers.

Main results:

* `U64.ofInt_eq_ok_iff`, `U64.ofText_intText_eq_ok_iff`: integers and their texts;
* `U64.ofNumber_double_eq_ok_iff`, `U64.ofValue_double_eq_ok_iff`: double precision;
* `EventGuid.ofNumber_eq_ok_iff`: an identifier has the number that is given;
* `U64.given_numbers`: **integers and double precision numbers are taken in their ranges, with their
  values**.
-/

set_option relaxedAutoImplicit false
set_option autoImplicit false

namespace WireCodec

namespace U64

/-! ### Integers -/

section

variable {i : Int} {u : U64}

theorem ofInt_eq_ok_iff : ofInt i = .ok u ↔ i = (u.value : Int) := by
  rw [ofInt]
  constructor
  · intro h
    split at h
    next hrange =>
      rw [← Except.ok.inj h]
      exact (Int.toNat_of_nonneg hrange.1).symm
    next => cases h
  · rintro rfl
    exact dif_pos ⟨Int.natCast_nonneg _, u.value_le⟩

theorem ofText_intText_eq_ok_iff : ofText (Decimal.intText i) = .ok u ↔ i = (u.value : Int) := by
  rw [ofText_eq_ok_iff, ← Decimal.read?_eq_some_iff, Decimal.read?_intText_eq_some_iff]

/-- The numbers of 64 bits are the integers in their range. -/
theorem exists_value_iff : (∃ u : U64, i = (u.value : Int)) ↔ 0 ≤ i ∧ i ≤ 2 ^ 64 - 1 := by
  have hmax : maxU64 = 2 ^ 64 - 1 := by decide
  constructor
  · rintro ⟨u, rfl⟩
    have hle := u.value_le
    omega
  · rintro ⟨hpos, hle⟩
    exact ⟨⟨i.toNat, by omega⟩, (Int.toNat_of_nonneg hpos).symm⟩

theorem reason_of_ofInt_eq_error {e : DecodeError} (h : ofInt i = .error e) :
    e.reason = .malformedNumber := by
  rw [ofInt] at h
  split at h
  · cases h
  · rw [← Except.error.inj h]
    rfl

/-! ### Double precision -/

variable {x : Binary64}

/-- The integer part of a safe integer is checked like any integer. -/
theorem ofInt_truncate_eq_ok_iff (hsafe : x.isSafeInteger = true) :
    ofInt x.truncate = .ok u ↔ x.Denotes u.value ∧ u.value ≤ 2 ^ 53 - 1 := by
  obtain ⟨i, hi, hle⟩ := Binary64.isSafeInteger_iff.1 hsafe
  obtain ⟨hintegral, rfl⟩ := Binary64.denotes_iff.1 hi
  rw [ofInt_eq_ok_iff, Binary64.denotes_iff]
  constructor
  · intro h
    rw [h, Int.natAbs_natCast] at hle
    exact ⟨⟨hintegral, h⟩, hle⟩
  · rintro ⟨⟨-, h⟩, -⟩
    exact h

/-- What is no safe integer denotes no number of 53 bits. -/
theorem not_denotes_of_not_safe (hsafe : x.isSafeInteger ≠ true) :
    ¬ (x.Denotes u.value ∧ u.value ≤ 2 ^ 53 - 1) := by
  rintro ⟨hdenotes, hle⟩
  exact hsafe (Binary64.isSafeInteger_iff.2 ⟨_, hdenotes, by simpa using hle⟩)

theorem ofNumber_double_eq_ok_iff :
    ofNumber (.double x) = .ok u ↔ x.Denotes u.value ∧ u.value ≤ 2 ^ 53 - 1 := by
  rw [ofNumber]
  split
  next hsafe => exact ofInt_truncate_eq_ok_iff hsafe
  next hsafe => exact iff_of_false (fun h => by cases h) (not_denotes_of_not_safe hsafe)

theorem ofValue_double_eq_ok_iff :
    ofValue (.double x) = .ok u ↔ x.Denotes u.value ∧ u.value ≤ 2 ^ 53 - 1 := by
  rw [ofValue]
  split
  next hsafe => rw [mapError_eq_ok_iff, ofInt_truncate_eq_ok_iff hsafe]
  next hsafe => exact iff_of_false (fun h => by cases h) (not_denotes_of_not_safe hsafe)

end

end U64

/-! ### Identifiers -/

/-- An identifier has the number that is given and the address. -/
theorem EventGuid.ofNumber_eq_ok_iff {n : Number} {a : Address} {g : EventGuid} :
    EventGuid.ofNumber n a = .ok g ↔ U64.ofNumber n = .ok g.creationNumber ∧ g.address = a := by
  rw [EventGuid.ofNumber]
  constructor
  · intro h
    obtain ⟨u, hu, rfl⟩ := exists_of_map_eq_ok h
    exact ⟨hu, rfl⟩
  · rintro ⟨hu, rfl⟩
    rw [hu]
    rfl

namespace U64

/-! ### Every form -/

/-- What an integer becomes: when it is given, by its text, by its text between quotes, and as a
part of an identifier. -/
def outcomes (a : Address) (i : Int) : List (Except DecodeError U64) :=
  [ofNumber (.integer i), ofText (Decimal.intText i),
    decode (Json.quote :: (Decimal.intText i ++ [Json.quote])),
    (EventGuid.ofNumber (.integer i) a).map EventGuid.creationNumber]

section

variable {i : Int}

/-- The text of an integer between quotes. -/
theorem quoted_intText (i : Int) :
    Json.quoted (Decimal.intText i) = Json.quote :: (Decimal.intText i ++ [Json.quote]) := by
  rw [Json.quoted, Decimal.escape_intText]

/-- All forms have the outcome of the integer itself or of its text. -/
theorem mem_outcomes {a : Address} {outcome : Except DecodeError U64}
    (h : outcome ∈ outcomes a i) :
    outcome = ofInt i ∨ outcome = ofText (Decimal.intText i) := by
  have hguid : (EventGuid.ofNumber (.integer i) a).map EventGuid.creationNumber = ofInt i := by
    rw [EventGuid.ofNumber, ofNumber]
    cases ofInt i <;> rfl
  rw [outcomes, hguid, ← quoted_intText, decode_quoted] at h
  simp only [List.mem_cons, List.not_mem_nil, or_false] at h
  rcases h with h | h | h | h
  · exact .inl h
  · exact .inr h
  · exact .inr h
  · exact .inl h

/-- Each form takes the numbers of 64 bits. -/
theorem eq_ok_iff_of_mem_outcomes {a : Address} {outcome : Except DecodeError U64} {u : U64}
    (h : outcome ∈ outcomes a i) : outcome = .ok u ↔ i = (u.value : Int) := by
  rcases mem_outcomes h with rfl | rfl
  · exact ofInt_eq_ok_iff
  · exact ofText_intText_eq_ok_iff

theorem reason_of_mem_outcomes {a : Address} {e : DecodeError} (h : .error e ∈ outcomes a i) :
    e.reason = .malformedNumber := by
  rcases mem_outcomes h with he | he
  · exact reason_of_ofInt_eq_error he.symm
  · exact (reason_of_ofText_eq_error he.symm).1

/-- The canonical JSON text is the text of the integer between quotes. -/
theorem codec_encode (u : U64) :
    codec.encode u = Json.quote :: (Decimal.intText u.value ++ [Json.quote]) :=
  quoted_intText u.value

end

/-- **Integers and double precision numbers are taken in their ranges, with their values.**  Each of
the forms of an integer from 0 to 2^64 - 1 is taken as the number with its value, the codec writes
the text of the integer between quotes, without leading zeros, and reads it back.  Each form of any
other integer is refused as a malformed number.  A double precision number is taken if its exact
value is an integer from 0 to 2^53 - 1, and the number that it becomes has this value. -/
theorem given_numbers (a : Address) :
    (∀ i : Int, 0 ≤ i ∧ i ≤ 2 ^ 64 - 1 → ∃ u : U64, (u.value : Int) = i ∧
      (∀ outcome ∈ outcomes a i, outcome = .ok u) ∧
      (∃ digits, Decimal.IsCanonical digits ∧ Decimal.number digits = u.value ∧
        Decimal.intText i = Decimal.spell digits) ∧
      codec.encode u = Json.quote :: (Decimal.intText i ++ [Json.quote]) ∧
      codec.decode (codec.encode u) = .ofExcept (.ok u)) ∧
    (∀ i : Int, ¬ (0 ≤ i ∧ i ≤ 2 ^ 64 - 1) →
      ∀ outcome ∈ outcomes a i, ∃ e, outcome = .error e ∧ e.reason = .malformedNumber) ∧
    ∀ x : Binary64,
      (∀ u, ofNumber (.double x) = .ok u ↔ x.Denotes u.value ∧ u.value ≤ 2 ^ 53 - 1) ∧
      (∀ u, ofValue (.double x) = .ok u ↔ x.Denotes u.value ∧ u.value ≤ 2 ^ 53 - 1) ∧
      ∀ g, EventGuid.ofNumber (.double x) a = .ok g ↔
        (x.Denotes g.creationNumber.value ∧ g.creationNumber.value ≤ 2 ^ 53 - 1) ∧
          g.address = a := by
  refine ⟨fun i hi => ?_, fun i hi outcome houtcome => ?_, fun x => ⟨?_, ?_, ?_⟩⟩
  · obtain ⟨u, rfl⟩ := exists_value_iff.2 hi
    exact ⟨u, rfl, fun outcome houtcome => (eq_ok_iff_of_mem_outcomes houtcome).2 rfl,
      ⟨_, Decimal.isCanonical_digits _, Decimal.number_digits _, rfl⟩, codec_encode u,
      codec_decode_encode u⟩
  · cases outcome with
    | ok u => exact absurd (exists_value_iff.1 ⟨u, (eq_ok_iff_of_mem_outcomes houtcome).1 rfl⟩) hi
    | error e => exact ⟨e, rfl, reason_of_mem_outcomes houtcome⟩
  · exact fun u => ofNumber_double_eq_ok_iff
  · exact fun u => ofValue_double_eq_ok_iff
  · intro g
    rw [EventGuid.ofNumber_eq_ok_iff, ofNumber_double_eq_ok_iff]

/-- The greatest number of 64 bits and the integers next to the range; a zero with a sign, and the
first double precision number that is too large. -/
theorem given_numbers_borders :
    let a : Address := ⟨List.replicate 32 0, List.length_replicate⟩
    let greatest : U64 := ⟨maxU64, Nat.le_refl _⟩
    let zero : Binary64 := .finite true 0 0
    let large : Binary64 := .finite false (2 ^ 52) 1
    ((0 : Int) ≤ 2 ^ 64 - 1 ∧ (2 ^ 64 - 1 : Int) ≤ 2 ^ 64 - 1 ∧
      ∀ outcome ∈ outcomes a (2 ^ 64 - 1), outcome = .ok greatest) ∧
    (∀ i : Int, i = -1 ∨ i = 2 ^ 64 → ¬ (0 ≤ i ∧ i ≤ 2 ^ 64 - 1) ∧
      ∀ outcome ∈ outcomes a i, ∃ e, outcome = .error e ∧ e.reason = .malformedNumber) ∧
    ofNumber (.double zero) = .ok ⟨0, by decide⟩ ∧ ∀ u, ofNumber (.double large) ≠ .ok u := by
  intro a greatest zero large
  obtain ⟨htaken, hrefused, hdouble⟩ := given_numbers a
  have hrange : (0 : Int) ≤ 2 ^ 64 - 1 ∧ (2 ^ 64 - 1 : Int) ≤ 2 ^ 64 - 1 := by decide
  obtain ⟨u, hu, hall, -⟩ := htaken (2 ^ 64 - 1) hrange
  have hgreatest : u = greatest := by
    have hmax : (maxU64 : Int) = 2 ^ 64 - 1 := by decide
    exact U64.ext (Int.ofNat.inj (hu.trans hmax.symm))
  rw [hgreatest] at hall
  have hout : ∀ i : Int, i = -1 ∨ i = 2 ^ 64 → ¬ (0 ≤ i ∧ i ≤ 2 ^ 64 - 1) := by omega
  refine ⟨⟨hrange.1, hrange.2, hall⟩, fun i hi => ⟨hout i hi, hrefused i (hout i hi)⟩,
    ((hdouble zero).1 _).2 (by decide), fun u hu => ?_⟩
  obtain ⟨hdenotes, hle⟩ := ((hdouble large).1 u).1 hu
  have hvalue : large.truncate = 2 ^ 53 := by decide
  rw [(Binary64.denotes_iff.1 hdenotes).2] at hvalue
  omega

end U64

end WireCodec

import WireCodec.EventGuid
import WireCodec.Proofs.Shape

/-
**Identifiers of objects.**

What the decoder of identifiers does with the document of a text: an object that does not pose as
a number is asked for its two fields, one after the other, and anything else is refused.

Main results:

* `EventGuid.decode_of_written`: the decoder reads the document that is written;
* `EventGuid.ofValue_eq_ok_iff`: an identifier comes from an object with both fields;
* `EventGuid.ofValue_eq_missing_number_iff`, `EventGuid.ofValue_eq_missing_address_iff`: which field
  is reported as missing.
-/

set_option relaxedAutoImplicit false
set_option autoImplicit false

namespace WireCodec

open Json (Value Doc Reading)

namespace EventGuid

/-! ### Names of fields -/

theorem isOrdinary_numberField : Value.IsOrdinary numberField where
  rootOwn r := by cases r <;> rfl
  read := rfl
  ne_length := by decide
  ne_parent := by decide

theorem isOrdinary_addressField : Value.IsOrdinary addressField where
  rootOwn r := by cases r <;> rfl
  read := rfl
  ne_length := by decide
  ne_parent := by decide

/-! ### Documents -/

/-- The decoder reads the document that is written. -/
theorem decode_of_written {d : Doc} {raw : Text}
    (h : Json.WrittenSpaced Reading.lossless.admits d raw) :
    decode raw = ofValue (.ofDoc .lossless d) := by
  rw [decode, readJson_eq_ok_iff.2 ⟨d, h, rfl⟩]

/-- What is decoded is written. -/
theorem exists_written_of_decode {raw : Text} {g : EventGuid} (h : decode raw = .ok g) :
    ∃ d, Json.WrittenSpaced Reading.lossless.admits d raw ∧
      ofValue (.ofDoc .lossless d) = .ok g := by
  rw [decode] at h
  cases hread : readJson raw .malformedObject "event GUID" with
  | error e =>
      rw [hread] at h
      cases h
  | ok v =>
      rw [hread] at h
      obtain ⟨d, hd, rfl⟩ := readJson_eq_ok_iff.1 hread
      exact ⟨d, hd, h⟩

section

variable {v : Value}

theorem ofValue_of_not_object (h : v.isObject = false) :
    ofValue v = .error (.decode (.unexpected .guid v.kind)) := by
  rw [ofValue, if_neg (by simp [h])]

/-- The fields of an object are asked for one after the other. -/
theorem ofValue_of_number_error (h : v.isObject = true) {e : Failure}
    (hnumber : readField v numberField U64.ofValue = .error e) : ofValue v = .error e := by
  rw [ofValue, if_pos h, hnumber]

theorem ofValue_of_number (h : v.isObject = true) {n : U64}
    (hnumber : readField v numberField U64.ofValue = .ok n) :
    ofValue v = (readField v addressField Address.ofValue).map fun a => ⟨n, a⟩ := by
  rw [ofValue, if_pos h, hnumber]
  cases readField v addressField Address.ofValue <;> rfl

/-- An identifier comes from an object with both fields. -/
theorem ofValue_eq_ok_iff {g : EventGuid} :
    ofValue v = .ok g ↔ v.isObject = true ∧
      readField v numberField U64.ofValue = .ok g.creationNumber ∧
      readField v addressField Address.ofValue = .ok g.address := by
  constructor
  · intro h
    by_cases hobject : v.isObject = true
    · cases hnumber : readField v numberField U64.ofValue with
      | error e =>
          rw [ofValue_of_number_error hobject hnumber] at h
          cases h
      | ok n =>
          rw [ofValue_of_number hobject hnumber] at h
          obtain ⟨a, haddress, rfl⟩ := exists_of_map_eq_ok h
          exact ⟨hobject, rfl, haddress⟩
    · rw [ofValue_of_not_object (by simpa using hobject)] at h
      cases h
  · rintro ⟨hobject, hnumber, haddress⟩
    rw [ofValue_of_number hobject hnumber, haddress]
    rfl

/-! ### Missing fields -/

theorem numberField_ne_addressField : numberField ≠ addressField := by decide

/-- The number is reported as missing by an object that lacks it. -/
theorem ofValue_eq_missing_number_iff :
    ofValue v = .error (.decode (.missingField numberField)) ↔
      v.isObject = true ∧ v.Lacks numberField := by
  constructor
  · intro h
    by_cases hobject : v.isObject = true
    · have hcomposite := isComposite_of_isObject hobject
      refine ⟨hobject, ?_⟩
      cases hnumber : readField v numberField U64.ofValue with
      | error e =>
          rw [ofValue_of_number_error hobject hnumber] at h
          rw [Except.error.inj h] at hnumber
          exact (lacks_of_readField_eq_missing hcomposite hnumber).2
      | ok n =>
          -- the address is not the field that is reported
          rw [ofValue_of_number hobject hnumber] at h
          cases haddress : readField v addressField Address.ofValue with
          | ok a =>
              rw [haddress] at h
              cases h
          | error e =>
              rw [haddress] at h
              rw [Except.error.inj h] at haddress
              have hfield := (lacks_of_readField_eq_missing hcomposite haddress).1
              exact absurd hfield numberField_ne_addressField
    · rw [ofValue_of_not_object (by simpa using hobject)] at h
      cases h
  · rintro ⟨hobject, hlacks⟩
    refine ofValue_of_number_error hobject ?_
    rw [readField, requiredField_of_lacks (isComposite_of_isObject hobject) hlacks]

/-- The address is reported as missing by an object that has the number and lacks the address. -/
theorem ofValue_eq_missing_address_iff :
    ofValue v = .error (.decode (.missingField addressField)) ↔
      v.isObject = true ∧ v.Lacks addressField ∧
        ∃ n, readField v numberField U64.ofValue = .ok n := by
  constructor
  · intro h
    by_cases hobject : v.isObject = true
    · have hcomposite := isComposite_of_isObject hobject
      refine ⟨hobject, ?_⟩
      cases hnumber : readField v numberField U64.ofValue with
      | error e =>
          -- the number is not the field that is reported
          rw [ofValue_of_number_error hobject hnumber] at h
          rw [Except.error.inj h] at hnumber
          have hfield := (lacks_of_readField_eq_missing hcomposite hnumber).1
          exact absurd hfield.symm numberField_ne_addressField
      | ok n =>
          refine ⟨?_, n, rfl⟩
          rw [ofValue_of_number hobject hnumber] at h
          cases haddress : readField v addressField Address.ofValue with
          | ok a =>
              rw [haddress] at h
              cases h
          | error e =>
              rw [haddress] at h
              rw [Except.error.inj h] at haddress
              exact (lacks_of_readField_eq_missing hcomposite haddress).2
    · rw [ofValue_of_not_object (by simpa using hobject)] at h
      cases h
  · rintro ⟨hobject, hlacks, n, hnumber⟩
    rw [ofValue_of_number hobject hnumber, readField,
      requiredField_of_lacks (isComposite_of_isObject hobject) hlacks]
    rfl

end

end EventGuid

end WireCodec

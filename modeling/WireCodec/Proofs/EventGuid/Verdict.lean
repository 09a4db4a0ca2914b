import WireCodec.Proofs.Address
import WireCodec.Proofs.RequiredField
import WireCodec.Proofs.U64

/-
**The verdicts on identifiers.**

What the decoder of identifiers says about a text, as a table of eight rows: the first row that
applies gives the verdict.  The rows speak of the document that the text writes and of its last
members, never of values, so they hold for the texts in which no object uses the names that have a
meaning of their own.

Main definitions:

* `Json.Doc.Avoids`: no object of a document uses certain keys;
* `EventGuid.Numbered`: a text writes an object with a number of 64 bits;
* `EventGuid.Verdict`: the table.

Main results:

* `EventGuid.decode_verdict`: the decoder follows the table.
-/

set_option relaxedAutoImplicit false
set_option autoImplicit false

namespace WireCodec

open Json (Value Doc Reading Unwritten lastMember? unwritten_or_exists)

/-! ### Keys that are avoided -/

/-- No object of the document has a member of one of the keys. -/
inductive Json.Doc.Avoids (keys : List Text) : Doc → Prop where
  | null : Avoids keys .null
  | bool (b : Bool) : Avoids keys (.bool b)
  | number (n : Json.Numeral) : Avoids keys (.number n)
  | text (t : Text) : Avoids keys (.text t)
  | array {items : List Doc} (hitems : ∀ d ∈ items, Avoids keys d) : Avoids keys (.array items)
  | object {members : List (Text × Doc)} (hkeys : ∀ m ∈ members, m.1 ∉ keys)
      (hmembers : ∀ m ∈ members, Avoids keys m.2) : Avoids keys (.object members)

/-- The names by which objects are read as something else than their members. -/
def Json.Value.specialKeys : List Text := [Value.parentKey, Value.tokenKey]

section

variable {members : List (Text × Doc)} (h : (Doc.object members).Avoids Value.specialKeys)
include h

theorem Json.Doc.Avoids.ne_parentKey : ∀ m ∈ members, m.1 ≠ Value.parentKey := by
  cases h with
  | object hkeys =>
      intro m hm heq
      exact hkeys m hm (List.mem_cons.2 (.inl heq))

theorem Json.Doc.Avoids.ne_tokenKey : ∀ m ∈ members, m.1 ≠ Value.tokenKey := by
  cases h with
  | object hkeys =>
      intro m hm heq
      exact hkeys m hm (List.mem_cons_of_mem _ (List.mem_singleton.2 heq))

theorem Json.Doc.Avoids.of_lastMember? {key : Text} {d : Doc}
    (hlast : lastMember? key members = some d) : d.Avoids Value.specialKeys := by
  cases h with
  | object _ hmembers => exact hmembers _ (Json.mem_of_lastMember? hlast)

end

theorem Json.Doc.Avoids.not_poses {d : Doc} (h : d.Avoids Value.specialKeys) : ¬ d.Poses := by
  cases d with
  | object members => exact Json.Doc.not_poses_of_unused h.ne_tokenKey h.ne_parentKey
  | null | bool | number | text | array =>
      intro hposes
      cases hposes.1

theorem Json.Doc.Avoids.isObject {members : List (Text × Doc)}
    (h : (Doc.object members).Avoids Value.specialKeys) :
    (Value.ofDoc .lossless (.object members)).isObject = true :=
  Value.isObject_ofDoc_object_iff.2 h.not_poses

namespace EventGuid

/-! ### The table -/

/-- The text writes an object whose creation number is a number of 64 bits. -/
structure Numbered (raw : Text) (members : List (Text × Doc)) (n : Nat) : Prop where
  written : Json.WrittenSpaced Reading.lossless.admits (.object members) raw
  number : ∃ d, lastMember? numberField members = some d ∧ d.DenotesU64 n

/-- What is said about a text.  Each row asks that the rows before it do not apply. -/
inductive Verdict (raw : Text) : Except Report EventGuid → Prop where
  /-- The text is not a document. -/
  | notJson {fault : Json.Fault}
      (hraw : ∀ d, ¬ Json.WrittenSpaced Reading.lossless.admits d raw)
      (hfault : Doc.parse Reading.lossless.admits raw = .error fault) :
      Verdict raw (.error (.mk .decoder (some "malformed_object") none
        (some (Text.concat ["Invalid JSON for event GUID: ", raw]))
        (some (.ofFault fault))))
  /-- The document is not an object. -/
  | notObject {d : Doc} (hraw : Json.WrittenSpaced Reading.lossless.admits d raw)
      (hshape : d.shape ≠ .object) :
      Verdict raw (.error (.ofRefusal "malformed_object"
        (Text.concat ["Expected a JSON object for an event GUID, got ", d.shape.kind.name])))
  /-- The creation number is absent or null. -/
  | numberMissing {members : List (Text × Doc)}
      (hraw : Json.WrittenSpaced Reading.lossless.admits (.object members) raw)
      (hnumber : Unwritten numberField members) :
      Verdict raw (.error (.ofMissingField numberField))
  /-- The creation number is not a number of 64 bits. -/
  | numberMalformed {members : List (Text × Doc)} {d : Doc} {message : Text}
      (hraw : Json.WrittenSpaced Reading.lossless.admits (.object members) raw)
      (hnumber : lastMember? numberField members = some d) (hnull : d ≠ .null)
      (hdenotes : ∀ n, ¬ d.DenotesU64 n) :
      Verdict raw (.error (.ofInvalidField numberField "malformed_number" message
        (.ofRefusal "malformed_number" message)))
  /-- The address is absent or null. -/
  | addressMissing {members : List (Text × Doc)} {n : Nat} (hnumber : Numbered raw members n)
      (haddress : Unwritten addressField members) :
      Verdict raw (.error (.ofMissingField addressField))
  /-- The address is not a text. -/
  | addressNotText {members : List (Text × Doc)} {n : Nat} {d : Doc} {message : Text}
      (hnumber : Numbered raw members n) (haddress : lastMember? addressField members = some d)
      (hnull : d ≠ .null) (hshape : d.shape ≠ .text) :
      Verdict raw (.error (.ofInvalidField addressField "malformed_object" message
        (.ofRefusal "malformed_object" message)))
  /-- The address is not 1 to 64 digits. -/
  | addressMalformed {members : List (Text × Doc)} {n : Nat} {t : Text} {e : Address.Error}
      (hnumber : Numbered raw members n)
      (haddress : lastMember? addressField members = some (.text t))
      (hform : ∀ digits, ¬ Address.RelaxedForm t digits) (he : Address.relaxed t = .error e)
      (hreason : e.reason ∈ ["too_short", "too_long", "invalid_hex_chars"]) :
      Verdict raw (.error (.ofInvalidField addressField "malformed_object" e.message
        (.ofAddressError e)))
  /-- Both fields can be decoded. -/
  | identifier {members : List (Text × Doc)} {t digits : Text} {g : EventGuid}
      (hnumber : Numbered raw members g.creationNumber.value)
      (haddress : lastMember? addressField members = some (.text t))
      (hform : Address.RelaxedForm t digits)
      (hbytes : Base16.Writes (Address.padded digits) g.address.bytes) :
      Verdict raw (.ok g)

/-! ### Rows of the number -/

section

variable {raw : Text}

theorem verdict_of_not_object {d : Doc} (hraw : Json.WrittenSpaced Reading.lossless.admits d raw)
    (hshape : d.shape ≠ .object) : Verdict raw ((decode raw).mapError Failure.report) := by
  have hposes : ¬ d.Poses := fun h => hshape h.1
  have hobject : (Value.ofDoc .lossless d).isObject = false := by
    rw [Bool.eq_false_iff, Ne, Json.Doc.isObject_ofDoc_iff]
    exact fun h => hshape h.1
  rw [decode_of_written hraw, ofValue_of_not_object hobject, Json.Doc.kind_ofDoc hposes]
  exact .notObject hraw hshape

variable {members : List (Text × Doc)} (havoids : (Doc.object members).Avoids Value.specialKeys)
include havoids

theorem verdict_of_number_missing
    (hraw : Json.WrittenSpaced Reading.lossless.admits (.object members) raw)
    (hnumber : Unwritten numberField members) :
    Verdict raw ((decode raw).mapError Failure.report) := by
  have hread := readField_of_unwritten isOrdinary_numberField havoids.ne_parentKey hnumber
    U64.ofValue
  rw [decode_of_written hraw, ofValue_of_number_error havoids.isObject hread]
  exact .numberMissing hraw hnumber

theorem verdict_of_number_malformed
    (hraw : Json.WrittenSpaced Reading.lossless.admits (.object members) raw) {d : Doc}
    (hnumber : lastMember? numberField members = some d) (hnull : d ≠ .null)
    (hdenotes : ∀ n, ¬ d.DenotesU64 n) : Verdict raw ((decode raw).mapError Failure.report) := by
  have hposes := (havoids.of_lastMember? hnumber).not_poses
  have hread := readField_of_lastMember? isOrdinary_numberField.ne_parent hnumber hnull U64.ofValue
  obtain ⟨e, he, hreason, hreport⟩ := U64.exists_error_of_not_denotes hposes hdenotes
  rw [he, Except.mapError] at hread
  rw [decode_of_written hraw, ofValue_of_number_error havoids.isObject hread, Except.mapError,
    report_inField_decode, hreason, hreport]
  exact .numberMalformed hraw hnumber hnull hdenotes

/-! ### Rows of the address -/

/-- After the number only the address decides. -/
theorem Numbered.decode_eq {n : Nat} (h : Numbered raw members n) :
    ∃ u : U64, u.value = n ∧ decode raw =
      (readField (.ofDoc .lossless (.object members)) addressField Address.ofValue).map
        fun a => ⟨u, a⟩ := by
  obtain ⟨d, hlast, hdenotes⟩ := h.number
  have hread := readField_of_lastMember? isOrdinary_numberField.ne_parent hlast hdenotes.ne_null
    U64.ofValue
  obtain ⟨u, hu, hvalue⟩ := U64.ofValue_of_denotes hdenotes
  rw [hu] at hread
  refine ⟨u, hvalue, ?_⟩
  rw [decode_of_written h.written]
  exact ofValue_of_number havoids.isObject hread

theorem verdict_of_address_missing {n : Nat} (hnumber : Numbered raw members n)
    (haddress : Unwritten addressField members) :
    Verdict raw ((decode raw).mapError Failure.report) := by
  obtain ⟨u, -, hdecode⟩ := hnumber.decode_eq havoids
  rw [hdecode, readField_of_unwritten isOrdinary_addressField havoids.ne_parentKey haddress]
  exact .addressMissing hnumber haddress

/-- An address that is written is missing no more: its text decides. -/
theorem verdict_of_address {n : Nat} {d : Doc} (hnumber : Numbered raw members n)
    (haddress : lastMember? addressField members = some d) (hnull : d ≠ .null) :
    Verdict raw ((decode raw).mapError Failure.report) := by
  obtain ⟨u, rfl, hdecode⟩ := hnumber.decode_eq havoids
  rw [readField_of_lastMember? isOrdinary_addressField.ne_parent haddress hnull] at hdecode
  rw [hdecode]
  cases d with
  | text t =>
      have hvalue : Address.ofValue (.ofDoc .lossless (.text t)) =
          (Address.relaxed t).mapError fun e => .unreadable (.address e) := by
        rw [Value.ofDoc, Address.ofValue]
      rw [hvalue]
      by_cases hform : ∃ digits, Address.RelaxedForm t digits
      · obtain ⟨digits, hdigits⟩ := hform
        obtain ⟨a, ha, hbytes⟩ := hdigits.relaxed_eq
        rw [ha]
        exact .identifier (g := ⟨u, a⟩) hnumber haddress hdigits hbytes
      · have hnot := not_exists.1 hform
        obtain ⟨e, he, hreason⟩ := Address.exists_error_of_not_relaxedForm hnot
        rw [he]
        refine .addressMalformed hnumber haddress hnot he ?_
        rcases hreason with rfl | rfl | ⟨fault, rfl⟩ <;> simp [Address.Error.reason]
  | null => exact absurd rfl hnull
  | bool | number | array | object =>
      refine .addressNotText hnumber haddress hnull ?_
      simp [Doc.shape]

end

/-! ### The decoder follows the table -/

/-- **The decoder follows the table**, on every text in which no object uses the keys that have a
meaning of their own. -/
theorem decode_verdict (raw : Text)
    (h : ∀ d, Json.WrittenSpaced Reading.lossless.admits d raw → d.Avoids Value.specialKeys) :
    Verdict raw ((decode raw).mapError Failure.report) := by
  cases hparse : Doc.parse Reading.lossless.admits raw with
  | error fault =>
      have hdecode : decode raw =
          .error (.decode (.invalidJson .malformedObject "event GUID" raw fault)) := by
        rw [decode, readJson, Value.read, hparse]
        rfl
      rw [hdecode]
      refine .notJson ?_ hparse
      intro d hd
      rw [Json.Doc.parse_eq_ok_iff.2 hd] at hparse
      cases hparse
  | ok d =>
      have hraw := Json.Doc.parse_eq_ok_iff.1 hparse
      have havoids := h d hraw
      cases d with
      | null | bool | number | text | array =>
          refine verdict_of_not_object hraw ?_
          simp [Doc.shape]
      | object members =>
          rcases unwritten_or_exists numberField members with hnumber | ⟨d, hnumber, hnull⟩
          · exact verdict_of_number_missing havoids hraw hnumber
          by_cases hdenotes : ∃ n, d.DenotesU64 n
          · obtain ⟨n, hn⟩ := hdenotes
            have hnumbered : Numbered raw members n := ⟨hraw, d, hnumber, hn⟩
            rcases unwritten_or_exists addressField members with haddress | ⟨d', haddress, hnull'⟩
            · exact verdict_of_address_missing havoids hnumbered haddress
            · exact verdict_of_address havoids hnumbered haddress hnull'
          · exact verdict_of_number_malformed havoids hraw hnumber hnull (not_exists.1 hdenotes)

/-- A text that is wrong in two ways: both fields are malformed, and the address comes first. -/
theorem decode_verdict_both_malformed :
    let raw : Text := "\x7b\"account_address\":7,\"creation_number\":\"-1\"\x7d"
    (∀ d, Json.WrittenSpaced Reading.lossless.admits d raw → d.Avoids Value.specialKeys) ∧
      Verdict raw ((decode raw).mapError Failure.report) := by
  let both : Doc :=
    .object [(addressField, .number (Json.Numeral.ofNat 7)), (numberField, .text "-1")]
  have hboth : both.IsWritable Reading.lossless.admits :=
    ⟨Json.Numeral.isToken_ofNat 7, rfl, trivial, rfl, trivial⟩
  intro raw
  have hraw := hboth.spaced_of_print_eq (t := raw) (by decide +kernel)
  have havoids : ∀ d, Json.WrittenSpaced Reading.lossless.admits d raw →
      d.Avoids Value.specialKeys := by
    intro d hd
    obtain rfl := hd.unique hraw
    refine .object (by decide) ?_
    simp [Json.Doc.Avoids.number, Json.Doc.Avoids.text]
  exact ⟨havoids, decode_verdict raw havoids⟩

end EventGuid

end WireCodec

import WireCodec.Proofs.EventGuid.Object

/-
**Required fields that are not written.**

A required field is looked up like any other member, so an object may have it from its parents.
That is the only way in which a field can be there that the object does not write itself.

Main definitions:

* `ReportsMissing`: a field is reported as missing, whatever its decoder.

Main results:

* `reportsMissing_iff_lacks`: a field is reported as missing exactly if the value lacks it;
* `EventGuid.missing_iff_not_inherits`: a field that is not written is missing unless the object
  inherits it.
-/

set_option relaxedAutoImplicit false
set_option autoImplicit false

namespace WireCodec

open Json (Value Doc Reading Unwritten Inherits)

/-! ### Reports of missing fields -/

theorem mapError_report_eq_iff {α : Type} {x : Except Failure α} {field : Text} :
    x.mapError Failure.report = .error (.ofMissingField field) ↔
      x = .error (.decode (.missingField field)) := by
  cases x with
  | ok a => exact iff_of_false nofun nofun
  | error e =>
      rw [Except.mapError, Except.error.injEq, Except.error.injEq, report_eq_ofMissingField_iff]

/-- A field is reported as missing and its decoder is not asked: the report is the same for all
decoders, and those that write a log have not written to it. -/
structure ReportsMissing (v : Value) (field : Text) : Prop where
  plain : ∀ {α : Type} (decode : Value → Except Failure α),
    (readField v field decode).mapError Failure.report = .error (.ofMissingField field)
  logged : ∀ {α : Type} (decode : Value → Logged α),
    (Logged.readField v field decode).outcome.mapError Failure.report =
      .error (.ofMissingField field) ∧ (Logged.readField v field decode).log = []

/-- **A field is reported as missing exactly if the value lacks it.** -/
theorem reportsMissing_iff_lacks {v : Value} {field : Text} (h : v.isComposite = true) :
    ReportsMissing v field ↔ v.Lacks field := by
  constructor
  · intro hreports
    by_contra hlacks
    -- a decoder that accepts everything is asked for what is there
    have hread := hreports.plain fun x => .ok x
    rw [readField, requiredField_of_not_lacks h hlacks] at hread
    cases hread
  · intro hlacks
    have hrequired := requiredField_of_lacks h hlacks
    constructor
    · intro α decode
      rw [readField, hrequired]
      rfl
    · intro α decode
      rw [Logged.readField, hrequired]
      exact ⟨rfl, rfl⟩

namespace EventGuid

/-! ### Identifiers -/

section

variable {raw : Text} {members : List (Text × Doc)}
  (hraw : Json.WrittenSpaced Reading.lossless.admits (.object members) raw)
include hraw

/-- A number that is not written is reported as missing unless it is inherited. -/
theorem reports_missing_number_iff (h : Unwritten numberField members) :
    (decode raw).mapError Failure.report = .error (.ofMissingField numberField) ↔
      ¬ (Doc.object members).Poses ∧ ¬ Inherits .lossless members numberField := by
  rw [mapError_report_eq_iff, decode_of_written hraw, ofValue_eq_missing_number_iff,
    Value.isObject_ofDoc_object_iff, Value.lacks_ofDoc_iff h]

/-- An address that is not written is reported as missing unless it is inherited, but only after the
number. -/
theorem reports_missing_address_iff (h : Unwritten addressField members) :
    (decode raw).mapError Failure.report = .error (.ofMissingField addressField) ↔
      ¬ (Doc.object members).Poses ∧ ¬ Inherits .lossless members addressField ∧
        ∃ n, readField (.ofDoc .lossless (.object members)) numberField U64.ofValue = .ok n := by
  rw [mapError_report_eq_iff, decode_of_written hraw, ofValue_eq_missing_address_iff,
    Value.isObject_ofDoc_object_iff, Value.lacks_ofDoc_iff h]

end

/-- **A field that is not written is missing unless the object inherits it.**  This holds for both
ways to read, for all decoders and for the two fields of an identifier, of which the address is
asked for after the number has been decoded. -/
theorem missing_iff_not_inherits {raw field : Text} {members : List (Text × Doc)}
    (h : Unwritten field members) :
    (∀ r : Reading, Json.WrittenSpaced r.admits (.object members) raw →
      ∃ v, Value.read r raw = .ok v ∧ (ReportsMissing v field ↔ ¬ Inherits r members field)) ∧
    (Json.WrittenSpaced Reading.lossless.admits (.object members) raw →
      field = numberField ∨ field = addressField →
      ((decode raw).mapError Failure.report = .error (.ofMissingField field) ↔
        ¬ (Doc.object members).Poses ∧ ¬ Inherits .lossless members field ∧
          (field = addressField →
            ∃ n, readField (.ofDoc .lossless (.object members)) numberField U64.ofValue =
              .ok n))) := by
  constructor
  · intro r hraw
    have hcomposite := isComposite_ofDoc_object r members
    exact ⟨_, Value.read_of_written hraw,
      (reportsMissing_iff_lacks hcomposite).trans (Value.lacks_ofDoc_iff h)⟩
  · rintro hraw (rfl | rfl)
    · rw [reports_missing_number_iff hraw h]
      simp [numberField_ne_addressField]
    · rw [reports_missing_address_iff hraw h]
      simp

/-- A text with the address alone. -/
theorem missing_iff_not_inherits_number :
    let raw : Text := "\x7b\"account_address\":\"0x1\"\x7d"
    (decode raw).mapError Failure.report = .error (.ofMissingField numberField) ∧
      ∀ r : Reading, ∃ v, Value.read r raw = .ok v ∧ ReportsMissing v numberField := by
  let members : List (Text × Doc) := [(addressField, .text "0x1")]
  have hmembers : ∀ r : Reading, (Doc.object members).IsWritable r.admits := by
    intro r
    cases r <;> exact ⟨trivial, rfl, trivial⟩
  have hunwritten : Unwritten numberField members := nofun
  have hparent : ∀ m ∈ members, m.1 ≠ Value.parentKey := by decide
  have hinherits := fun r => Json.not_inherits_of_isOrdinary (r := r) isOrdinary_numberField hparent
  intro raw
  have hraw : ∀ r : Reading, Json.WrittenSpaced r.admits (.object members) raw := by
    intro r
    exact (hmembers r).spaced_of_print_eq (by decide +kernel)
  obtain ⟨hread, hdecode⟩ := @missing_iff_not_inherits raw _ _ hunwritten
  constructor
  · refine (hdecode (hraw .lossless) (.inl rfl)).2 ⟨?_, hinherits .lossless, ?_⟩
    · exact Json.Doc.not_poses_of_unused (by decide) hparent
    · exact fun h => absurd h numberField_ne_addressField
  · intro r
    obtain ⟨v, hv, hreports⟩ := hread r (hraw r)
    exact ⟨v, hv, hreports.2 (hinherits r)⟩

/-- A field that is not missing: the object does not write the number and has it from its parent. -/
theorem not_reportsMissing_of_parent :
    let raw : Text := Text.concat ["\x7b\"__proto__\":\x7b\"creation_number\":5\x7d,",
      "\"account_address\":\"0x1\"\x7d"]
    ∃ members v, Json.WrittenSpaced Reading.lossless.admits (.object members) raw ∧
      Unwritten numberField members ∧ Value.read .lossless raw = .ok v ∧
      ¬ ReportsMissing v numberField ∧
      ∃ g, decode raw = .ok g ∧ g.creationNumber.value = 5 := by
  let members : List (Text × Doc) :=
    [(Value.parentKey, .object [(numberField, .number (Json.Numeral.ofNat 5))]),
      (addressField, .text "0x1")]
  have hmembers : (Doc.object members).IsWritable Reading.lossless.admits :=
    ⟨⟨Json.Numeral.isToken_ofNat 5, rfl, trivial⟩, rfl, trivial, rfl, trivial⟩
  intro raw
  have hraw := hmembers.spaced_of_print_eq (t := raw) (by decide +kernel)
  refine ⟨members, _, hraw, nofun, Value.read_of_written hraw, ?_, ?_⟩
  · intro hreports
    have hread := hreports.plain U64.ofValue
    have hfive : readField (Value.ofDoc .lossless (.object members)) numberField U64.ofValue =
        .ok ⟨5, by decide⟩ := by decide +kernel
    rw [hfive] at hread
    cases hread
  · have hdecode : decode raw = .ok ⟨⟨5, by decide⟩, ⟨List.replicate 31 0 ++ [1], rfl⟩⟩ := by
      decide +kernel
    exact ⟨_, hdecode, rfl⟩

end EventGuid

end WireCodec

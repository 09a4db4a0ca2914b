import WireCodec.Decoding
import WireCodec.Proofs.Json.Inheritance
import WireCodec.Proofs.Json.Printer

/-
**What the decoders read.**

Main definitions:

* `Report.ofMissingField`, `Report.ofRefusal`, `Report.ofInvalidField`, `Report.ofReader`: what the
  errors of a field that is missing, of a decoder, of a field's decoder and of a reader say;
* `Validity.Reports`: an answer says what a report says;
* `Decided`: an outcome is a value or an error of a decoder, and nothing else escapes.

Main results:

* `readJson_eq_ok_iff`: the decoders read the values of the documents that are written;
* `readJson_print`: the compact text of a document is read as its value;
* `report_eq_ofMissingField_iff`: the report of a missing field tells which failure it is;
* `exists_report_of_eq_error`: what the report of a decoder's error says;
* `Validity.exists_reports`: there is an answer to whatever a reader says;
* `requiredField_of_lastMember?`: the last member of a field is found;
* `readField_of_isObject`: a field of an object is missing, or its decoder decides;
* `lacks_of_readField_eq_missing`: only a field that is lacking is reported as missing.
-/

set_option relaxedAutoImplicit false
set_option autoImplicit false

namespace WireCodec

open Json (Value Doc Reading)

/-! ### JSON texts -/

/-- Both readings give the value of the document that is written. -/
theorem Json.Value.read_of_written {r : Reading} {d : Doc} {raw : Text}
    (h : Json.WrittenSpaced r.admits d raw) : Value.read r raw = .ok (.ofDoc r d) := by
  rw [Value.read, Json.Doc.parse_eq_ok_iff.2 h]
  rfl

section

variable {raw : Text} {reason : DecodeReason} {typeName : Text}

/-- **The decoders read the values of the documents that are written.** -/
theorem readJson_eq_ok_iff {v : Value} :
    readJson raw reason typeName = .ok v ↔
      ∃ d, Json.WrittenSpaced Reading.lossless.admits d raw ∧ v = Value.ofDoc .lossless d := by
  rw [readJson, Value.read]
  constructor
  · intro h
    cases hparse : Doc.parse Reading.lossless.admits raw with
    | error fault =>
        rw [hparse] at h
        cases h
    | ok d =>
        rw [hparse] at h
        exact ⟨d, Json.Doc.parse_eq_ok_iff.1 hparse, (Except.ok.inj h).symm⟩
  · rintro ⟨d, hd, rfl⟩
    rw [Json.Doc.parse_eq_ok_iff.2 hd]
    rfl

theorem readJson_print {d : Doc} (h : d.IsWritable Reading.lossless.admits) :
    readJson d.print reason typeName = .ok (Value.ofDoc .lossless d) := by
  rw [readJson, Value.read, h.parse_print]
  rfl

end

/-! ### Reports -/

namespace Report

/-- What the error of a missing field says. -/
def ofMissingField (field : Text) : Report :=
  .mk .decoder (some "malformed_object") (some field)
    (some (Text.concat ["Missing required field \"", field, "\""])) none

/-- An error of a decoder with nothing underneath. -/
def ofRefusal (reason : String) (message : Text) : Report :=
  .mk .decoder (some reason) none (some message) none

/-- An error of a field over the failure of its decoder or reader. -/
def ofInvalidField (field : Text) (reason : String) (message : Text) (cause : Report) : Report :=
  .mk .decoder (some reason) (some field) (some (fieldMessage field message)) (some cause)

/-- An error of a reader, perhaps over a failure underneath. -/
def ofReader (reason : String) (message : Text) (cause : Option Report) : Report :=
  .mk .reader (some reason) none (some message) cause

end Report

/-- No other failure says the same as a missing field. -/
theorem report_eq_ofMissingField_iff {e : Failure} {field : Text} :
    e.report = .ofMissingField field ↔ e = .decode (.missingField field) := by
  constructor
  · intro h
    cases e with
    | decode e =>
        cases e with
        | missingField field' =>
            have hfield : some field' = some field := (Report.mk.inj h).2.2.1
            rw [Option.some_inj.1 hfield]
        | invalidJson | malformedBytes | invalidField | unreadableField =>
            -- these have a cause
            cases (Report.mk.inj h).2.2.2.2
        | invalidLiteral | literalTooLarge | notSafeInteger | outOfRange | roundedNumber
        | unexpected => cases (Report.mk.inj h).2.2.1
    | unreadable e => cases e <;> cases (Report.mk.inj h).1
    | misuse m => cases (Report.mk.inj h).2.1
    | grammar => cases (Report.mk.inj h).1
  · rintro rfl
    rfl

/-- An error of a decoder is reported with its code, its field and its wording. -/
theorem exists_report_of_eq_error {α : Type} {x : Except Failure α} {e : DecodeError}
    (h : x = .error (.decode e)) :
    ∃ message cause, x.mapError Failure.report =
      .error (.mk .decoder (some e.reason.name) e.field (some message) cause) := by
  subst h
  cases e <;> exact ⟨_, _, rfl⟩

/-- A field passes on the code and the wording of its decoder. -/
theorem report_inField_decode (field : Text) (e : DecodeError) :
    (Failure.inField field (.decode e)).report =
      .ofInvalidField field e.reason.name e.message (.ofDecodeError e) := rfl

/-! ### Answers -/

/-- An answer says what a report says: that there is a value, or the code and the wording of the
error. -/
inductive Validity.Reports {α : Type} : Validity → Except Report α → Prop where
  | valid (a : α) : Reports .valid (.ok a)
  | invalid {kind : Report.Kind} {reason : String} {field : Option Text} {message : Text}
      {cause : Option Report} :
      Reports (.invalid reason message) (.error (.mk kind (some reason) field (some message) cause))

/-- There is an answer to whatever a reader says. -/
theorem Validity.exists_reports {ε α : Type} (x : Except ε α) (wrap : ε → TextError) :
    ∃ v, Validity.ofExcept (x.mapError fun e => .unreadable (wrap e)) = .ok v ∧
      v.Reports (x.mapError fun e => Report.ofTextError (wrap e)) := by
  cases x with
  | ok a => exact ⟨.valid, rfl, .valid a⟩
  | error e =>
      refine ⟨.invalid (wrap e).reason (wrap e).message, rfl, ?_⟩
      cases hwrap : wrap e with
      | hex | address => simp only [Except.mapError, hwrap]; exact .invalid

/-! ### Outcomes -/

/-- An outcome is a value or an error of a decoder. -/
def Decided {α : Type} (x : Except Failure α) : Prop :=
  (∃ a, x = .ok a) ∨ ∃ e, x = .error (.decode e)

theorem Decided.mapError_inField {α : Type} {x : Except Failure α} (h : Decided x) (field : Text) :
    Decided (x.mapError (Failure.inField field)) := by
  rcases h with ⟨a, rfl⟩ | ⟨e, rfl⟩
  · exact .inl ⟨a, rfl⟩
  · exact .inr ⟨.invalidField field e, rfl⟩

/-! ### Fields -/

theorem isComposite_of_isObject {v : Value} (h : v.isObject = true) : v.isComposite = true := by
  cases v with
  | token | array | object | root => rfl
  | missing | null | bool | text | double | integer | method => cases h

/-- A member of a value with members can be asked for. -/
theorem member_of_isComposite {v : Value} (h : v.isComposite = true) (field : Text) :
    v.member field = .ok (v.get field) := by
  cases v with
  | missing | null => cases h
  | bool | text | double | integer | token | array | object | root | method => rfl

/-- A required field is missing if the value has nothing but null under its name. -/
theorem requiredField_of_isComposite {v : Value} (h : v.isComposite = true) (field : Text) :
    requiredField v field =
      match v.get field with
      | .missing | .null => .error (.decode (.missingField field))
      | x => .ok x := by
  rw [requiredField, member_of_isComposite h]
  cases v.get field <;> rfl

theorem requiredField_of_lacks {v : Value} {field : Text} (hv : v.isComposite = true)
    (h : v.Lacks field) : requiredField v field = .error (.decode (.missingField field)) := by
  rw [requiredField_of_isComposite hv]
  rcases h with hmissing | hnull
  · rw [hmissing]
  · rw [hnull]

theorem requiredField_of_not_lacks {v : Value} {field : Text} (hv : v.isComposite = true)
    (h : ¬ v.Lacks field) : requiredField v field = .ok (v.get field) := by
  rw [requiredField_of_isComposite hv]
  split
  · next hmissing => exact absurd (.inl hmissing) h
  · next hnull => exact absurd (.inr hnull) h
  · rfl

/-- **A field of an object is missing, or its decoder decides.** -/
theorem readField_of_isObject {α : Type} {v : Value} (h : v.isObject = true) (field : Text)
    (decode : Value → Except Failure α) :
    readField v field decode =
      match v.get field with
      | .missing | .null => .error (.decode (.missingField field))
      | x => (decode x).mapError (Failure.inField field) := by
  rw [readField, requiredField_of_isComposite (isComposite_of_isObject h)]
  cases v.get field <;> rfl

/-- What can be decoded is not lacking. -/
theorem not_lacks_of_readField_eq_ok {α : Type} {v : Value} {field : Text}
    {decode : Value → Except Failure α} {a : α} (hv : v.isComposite = true)
    (h : readField v field decode = .ok a) : ¬ v.Lacks field := by
  intro hlacks
  rw [readField, requiredField_of_lacks hv hlacks] at h
  cases h

/-- Only what is found under its name decides on a field. -/
theorem readField_congr {α : Type} {v w : Value} {field : Text} (hv : v.isComposite = true)
    (hw : w.isComposite = true) (h : v.get field = w.get field)
    (decode : Value → Except Failure α) : readField v field decode = readField w field decode := by
  rw [readField, readField, requiredField_of_isComposite hv, requiredField_of_isComposite hw, h]

theorem isComposite_ofDoc_object (r : Reading) (members : List (Text × Doc)) :
    (Value.ofDoc r (.object members)).isComposite = true := by
  rw [Value.ofDoc]
  rfl

section

variable {α : Type} {members : List (Text × Doc)} {field : Text} {d : Doc}
  (hfield : field ≠ Value.parentKey) (h : Json.lastMember? field members = some d) (hd : d ≠ .null)
include hfield h hd

/-- The last member of a field is found, whatever the parents have. -/
theorem requiredField_of_lastMember? :
    requiredField (.ofDoc .lossless (.object members)) field = .ok (.ofDoc .lossless d) := by
  have hfind : (Value.ofDoc .lossless (.object members)).find? field =
      some (.ofDoc .lossless d) := by
    rw [Value.find?_ofDoc_object hfield, h]
    rfl
  have hlacks := mt (Value.lacks_of_find?_ofDoc hfind).1 hd
  rw [requiredField_of_not_lacks (isComposite_ofDoc_object _ _) hlacks,
    Value.get_of_ne_parentKey hfield, hfind, Option.getD_some]

/-- The last member of a field is decoded. -/
theorem readField_of_lastMember? (decode : Value → Except Failure α) :
    readField (.ofDoc .lossless (.object members)) field decode =
      (decode (.ofDoc .lossless d)).mapError (Failure.inField field) := by
  rw [readField, requiredField_of_lastMember? hfield h hd]

/-- So it is by a decoder that writes a log. -/
theorem Logged.readField_of_lastMember? (decode : Value → Logged α) :
    Logged.readField (.ofDoc .lossless (.object members)) field decode =
      (decode (.ofDoc .lossless d)).mapFailure (Failure.inField field) := by
  rw [Logged.readField, requiredField_of_lastMember? hfield h hd]

end

/-- A field that is not written is missing if there are no parents. -/
theorem readField_of_unwritten {α : Type} {members : List (Text × Doc)} {field : Text}
    (hfield : Value.IsOrdinary field) (hparent : ∀ m ∈ members, m.1 ≠ Value.parentKey)
    (h : Json.Unwritten field members) (decode : Value → Except Failure α) :
    readField (.ofDoc .lossless (.object members)) field decode =
      .error (.decode (.missingField field)) := by
  have hlacks := (Value.lacks_ofDoc_iff (r := .lossless) h).2
    (Json.not_inherits_of_isOrdinary hfield hparent)
  rw [readField, requiredField_of_lacks (isComposite_ofDoc_object _ _) hlacks]

/-- Only a field that is lacking is reported as missing. -/
theorem lacks_of_readField_eq_missing {α : Type} {v : Value} (hv : v.isComposite = true)
    {field other : Text} {decode : Value → Except Failure α}
    (h : readField v field decode = .error (.decode (.missingField other))) :
    other = field ∧ v.Lacks field := by
  by_cases hlacks : v.Lacks field
  · rw [readField, requiredField_of_lacks hv hlacks] at h
    cases h
    exact ⟨rfl, hlacks⟩
  · rw [readField, requiredField_of_not_lacks hv hlacks] at h
    simp only at h
    cases hdecode : decode (v.get field) with
    | ok a =>
        rw [hdecode] at h
        cases h
    | error e =>
        rw [hdecode] at h
        cases e <;> cases h

/-- A field is decided if its decoder decides on the member. -/
theorem Decided.readField {α : Type} {v : Value} {field : Text} {decode : Value → Except Failure α}
    (h : v.isObject = true)
    (hdecode : Decided ((decode (v.get field)).mapError (Failure.inField field))) :
    Decided (readField v field decode) := by
  rw [readField_of_isObject h]
  split
  · exact .inr ⟨_, rfl⟩
  · exact .inr ⟨_, rfl⟩
  · exact hdecode

end WireCodec

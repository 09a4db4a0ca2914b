import WireCodec.Address.Json
import WireCodec.Blob
import WireCodec.Proofs.Decoding

/-
**Fields in fields.**

The decoder of a field may read a field of what it finds, and so on to any depth.  Each field puts
its name in front of the wording and keeps the error that it was handed as the cause.  The first
field that meets the error of a reader turns it into one of a decoder, so the fields further out
treat it by the other rule; what is no error of either kind meets no rule at all.

A field looks at nothing but the kind and the wording of an error, so what it does is a function of
reports.  This also covers decoders from elsewhere, with errors that no decoder here has.

Main definitions:

* `Json.Value.Leads`: members that objects have themselves lead to a value;
* `Report.inField`, `Report.readField`: a field over any decoder, whose errors are reports;
* `readPath`: the fields of a path, one in the other, and a decoder inside;
* `Report.nested`: the errors of all fields of a path over the error at its end;
* `Carried`: what becomes of an outcome on the way out of a path.

Main results:

* `readField_reported`, `Logged.readField_outcome`: the two readers of a field do the same as the
  one over reports;
* `Report.readPath_eq`: a path of fields hands over what its decoder gives;
* `readPath_carries`: **an outcome is carried out of a path of any length**.
-/

set_option relaxedAutoImplicit false
set_option autoImplicit false

namespace WireCodec

open Json (Value)

/-! ### Members on a path -/

/-- Each name is that of a member which the object has itself.  The members lead from object to
object, and the last one to a value that is neither missing nor null. -/
inductive Json.Value.Leads : List Text → Value → Value → Prop where
  | last {field : Text} {members : List (Text × Value)} {parent v : Value}
      (hown : members.lookup field = some v) (hmissing : v ≠ .missing) (hnull : v ≠ .null) :
      Leads [field] (.object members parent) v
  | next {field : Text} {fields : List Text} {members : List (Text × Value)}
      {parent v leaf : Value} (hown : members.lookup field = some v) (h : Leads fields v leaf) :
      Leads (field :: fields) (.object members parent) leaf

/-- The first value of a path is an object, which is neither missing nor null. -/
theorem Json.Value.Leads.ne {fields : List Text} {v leaf : Value} (h : Value.Leads fields v leaf) :
    v ≠ .missing ∧ v ≠ .null := by
  cases h <;> exact ⟨nofun, nofun⟩

/-- A member that the object has itself is found, whatever the parents have. -/
theorem requiredField_of_own {field : Text} {members : List (Text × Value)} {parent v : Value}
    (hown : members.lookup field = some v) (hv : v ≠ .missing ∧ v ≠ .null) :
    requiredField (.object members parent) field = .ok v := by
  have hfind : (Value.object members parent).find? field = some v := by
    rw [Value.find?, hown]
    rfl
  rw [requiredField_of_not_lacks rfl (Value.not_lacks_of_find? hfind hv.1 hv.2), Value.get, hfind]

/-! ### Fields over any decoder -/

namespace Report

/-- An error as seen from the object whose field failed.  That of a decoder keeps its code, that of
a reader has the code of a malformed object from here on, and any other error stays as it is. -/
def inField (field : Text) : Report → Report
  | .mk .decoder reason inner message cause =>
      .mk .decoder reason (some field) (message.map (fieldMessage field))
        (some (.mk .decoder reason inner message cause))
  | .mk .reader reason inner message cause =>
      .mk .decoder (some DecodeReason.malformedObject.name) (some field)
        (message.map (fieldMessage field)) (some (.mk .reader reason inner message cause))
  | report => report

/-- A required field over any decoder, whose errors are known by what they say. -/
def readField {α : Type} (object : Value) (field : Text) (decode : Value → Except Report α) :
    Except Report α :=
  match requiredField object field with
  | .error e => .error e.report
  | .ok v => (decode v).mapError (inField field)

end Report

/-- What a failure says in a field depends on what it says alone. -/
theorem Failure.report_inField (field : Text) (e : Failure) :
    (e.inField field).report = e.report.inField field := by
  cases e with
  | decode e => cases e <;> rfl
  | unreadable e => cases e <;> rfl
  | misuse m => cases m <;> rfl
  | grammar => rfl

section

variable {α : Type} (object : Value) (field : Text)

/-- The reader of a field does what the one over reports does. -/
theorem readField_reported (decode : Value → Except Failure α) :
    (readField object field decode).mapError Failure.report =
      Report.readField object field fun v => (decode v).mapError Failure.report := by
  rw [readField, Report.readField]
  cases requiredField object field with
  | error e => rfl
  | ok v =>
      cases hdecode : decode v with
      | ok a => simp only [hdecode]; rfl
      | error e =>
          simp only [hdecode]
          exact congrArg Except.error (e.report_inField field)

/-- So does the one whose decoder writes a log. -/
theorem Logged.readField_outcome (decode : Value → Logged α) :
    (Logged.readField object field decode).outcome =
      WireCodec.readField object field fun v => (decode v).outcome := by
  rw [Logged.readField, WireCodec.readField]
  cases requiredField object field <;> rfl

end

/-! ### Reading along a path -/

section

variable {δ δ' : Type}

/-- The fields of a path, each read in the value of the one before it, and a decoder inside. -/
def readPath (read : Value → Text → (Value → δ) → δ) : List Text → (Value → δ) → Value → δ
  | [], decode => decode
  | field :: fields, decode => fun v => read v field (readPath read fields decode)

theorem readPath_cons (read : Value → Text → (Value → δ) → δ) (field : Text) (fields : List Text)
    (decode : Value → δ) (v : Value) :
    readPath read (field :: fields) decode v = read v field (readPath read fields decode) := rfl

/-- Readers of a field that do the same do the same along a path. -/
theorem map_readPath {read : Value → Text → (Value → δ) → δ}
    {read' : Value → Text → (Value → δ') → δ'} {f : δ → δ'}
    (hread : ∀ object field decode,
      f (read object field decode) = read' object field fun v => f (decode v))
    (fields : List Text) (decode : Value → δ) (v : Value) :
    f (readPath read fields decode v) = readPath read' fields (fun w => f (decode w)) v := by
  induction fields generalizing v with
  | nil => rfl
  | cons field fields ih =>
      rw [readPath_cons, readPath_cons, hread]
      exact congrArg (read' v field) (funext ih)

end

section

variable {α : Type} {fields : List Text} {v leaf : Value} (h : Value.Leads fields v leaf)
include h

/-- A path of fields hands over what its decoder gives, with every field in the report. -/
theorem Report.readPath_eq (decode : Value → Except Report α) :
    readPath Report.readField fields decode v =
      (decode leaf).mapError fun report => fields.foldr Report.inField report := by
  induction h with
  | last hown hmissing hnull =>
      rw [readPath_cons, Report.readField, requiredField_of_own hown ⟨hmissing, hnull⟩]
      rfl
  | next hown h ih =>
      rw [readPath_cons, Report.readField, requiredField_of_own hown h.ne]
      simp only [ih]
      cases decode _ <;> rfl

/-- The log of the decoder at the end of a path is that of the path. -/
theorem Logged.readPath_log (decode : Value → Logged α) :
    (readPath Logged.readField fields decode v).log = (decode leaf).log := by
  induction h with
  | last hown hmissing hnull =>
      rw [readPath_cons, Logged.readField, requiredField_of_own hown ⟨hmissing, hnull⟩]
      rfl
  | next hown h ih =>
      rw [readPath_cons, Logged.readField, requiredField_of_own hown h.ne]
      exact ih

end

/-! ### Errors on a path -/

/-- The wording of an error at the end of a path. -/
def pathMessage (fields : List Text) (message : Text) : Text :=
  Text.concat (fields.map fun field => Text.concat ["Invalid field \"", field, "\": "]) ++ message

theorem pathMessage_cons (field : Text) (fields : List Text) (message : Text) :
    pathMessage (field :: fields) message = fieldMessage field (pathMessage fields message) := by
  simp [pathMessage, fieldMessage, Text.concat]

namespace Report

/-- The errors of the fields of a path, each the cause of the one before it, and at the end of the
causes the error that the path ends in. -/
def nested (reason : Option String) (message : Option Text) (leaf : Report) : List Text → Report
  | [] => leaf
  | field :: fields =>
      .mk .decoder reason (some field) (message.map (pathMessage (field :: fields)))
        (some (nested reason message leaf fields))

theorem nested_singleton (reason : Option String) (message : Option Text) (leaf : Report)
    (field : Text) : nested reason message leaf [field] =
      .mk .decoder reason (some field) (message.map (fieldMessage field)) (some leaf) := by
  rw [nested, nested, funext (pathMessage_cons field [])]
  rfl

/-- One more field around the errors of a path. -/
theorem inField_nested (outer field : Text) (fields : List Text) (reason : Option String)
    (message : Option Text) (leaf : Report) :
    inField outer (nested reason message leaf (field :: fields)) =
      nested reason message leaf (outer :: field :: fields) := by
  rw [nested, inField, Option.map_map, nested, nested,
    funext (pathMessage_cons outer (field :: fields))]
  rfl

/-- Whatever the innermost field makes of an error, the fields further out treat it as the error of
a decoder. -/
theorem foldr_inField_eq_nested {leaf : Report} {reason : Option String} {message : Option Text}
    (hleaf : ∀ field, inField field leaf = nested reason message leaf [field]) (field : Text)
    (fields : List Text) :
    (field :: fields).foldr inField leaf = nested reason message leaf (field :: fields) := by
  induction fields generalizing field with
  | nil => exact hleaf field
  | cons inner fields ih =>
      -- what comes out of the inner fields is an error of a decoder, and keeps its code
      rw [List.foldr_cons, ih, inField_nested]

theorem foldr_inField_decoder (reason : Option String) (inner message : Option Text)
    (cause : Option Report) (field : Text) (fields : List Text) :
    (field :: fields).foldr inField (.mk .decoder reason inner message cause) =
      nested reason message (.mk .decoder reason inner message cause) (field :: fields) := by
  apply foldr_inField_eq_nested
  intro f
  rw [inField, nested_singleton]

theorem foldr_inField_reader (reason : Option String) (inner message : Option Text)
    (cause : Option Report) (field : Text) (fields : List Text) :
    (field :: fields).foldr inField (.mk .reader reason inner message cause) =
      nested (some "malformed_object") message (.mk .reader reason inner message cause)
        (field :: fields) := by
  apply foldr_inField_eq_nested
  intro f
  rw [inField, nested_singleton]
  rfl

theorem foldr_inField_of_fixed {report : Report} (h : ∀ field, inField field report = report)
    (fields : List Text) : fields.foldr inField report = report := by
  induction fields with
  | nil => rfl
  | cons field fields ih => rw [List.foldr_cons, ih, h]

end Report

/-! ### Outcomes on a path -/

/-- What becomes of an outcome on the way out of a path.  A value stays.  The errors of decoders and
readers come out as an error of a decoder that names the first field and has the errors of the other
fields as its causes, with the error itself at the end.  Any other error stays. -/
inductive Carried {α : Type} (fields : List Text) : Except Report α → Except Report α → Prop where
  | value (a : α) : Carried fields (.ok a) (.ok a)
  | decoder {reason : Option String} {inner message : Option Text} {cause : Option Report} :
      Carried fields (.error (.mk .decoder reason inner message cause))
        (.error (.nested reason message (.mk .decoder reason inner message cause) fields))
  | reader {reason : Option String} {inner message : Option Text} {cause : Option Report} :
      Carried fields (.error (.mk .reader reason inner message cause))
        (.error (.nested (some "malformed_object") message
          (.mk .reader reason inner message cause) fields))
  | other {kind : Report.Kind} {reason : Option String} {inner message : Option Text}
      {cause : Option Report} (hkind : kind ≠ .decoder ∧ kind ≠ .reader) :
      Carried fields (.error (.mk kind reason inner message cause))
        (.error (.mk kind reason inner message cause))

theorem carried_foldr {α : Type} (field : Text) (fields : List Text) (x : Except Report α) :
    Carried (field :: fields) x
      (x.mapError fun report => (field :: fields).foldr Report.inField report) := by
  rcases x with ⟨kind, reason, inner, message, cause⟩ | a
  · rw [Except.mapError]
    cases kind with
    | decoder =>
        rw [Report.foldr_inField_decoder]
        exact .decoder
    | reader =>
        rw [Report.foldr_inField_reader]
        exact .reader
    | plain | misuse | grammar | limit =>
        rw [Report.foldr_inField_of_fixed fun _ => rfl]
        exact .other ⟨nofun, nofun⟩
  · exact .value a

/-- **An outcome is carried out of a path of any length**, whatever the decoder at its end: one from
elsewhere, one of this library, or one that writes a log, which it leaves as it is. -/
theorem readPath_carries {α : Type} {fields : List Text} {v leaf : Value}
    (h : Value.Leads fields v leaf) :
    (∀ decode : Value → Except Report α,
      Carried fields (decode leaf) (readPath Report.readField fields decode v)) ∧
    (∀ decode : Value → Except Failure α,
      Carried fields ((decode leaf).mapError Failure.report)
        ((readPath readField fields decode v).mapError Failure.report)) ∧
    ∀ decode : Value → Logged α,
      Carried fields ((decode leaf).outcome.mapError Failure.report)
        ((readPath Logged.readField fields decode v).outcome.mapError Failure.report) ∧
      (readPath Logged.readField fields decode v).log = (decode leaf).log := by
  have hfields : ∃ field rest, fields = field :: rest := by cases h <;> exact ⟨_, _, rfl⟩
  have hreport : ∀ decode : Value → Except Report α,
      Carried fields (decode leaf) (readPath Report.readField fields decode v) := by
    intro decode
    obtain ⟨field, rest, rfl⟩ := hfields
    rw [Report.readPath_eq h]
    exact carried_foldr field rest _
  have hfailure : ∀ decode : Value → Except Failure α,
      Carried fields ((decode leaf).mapError Failure.report)
        ((readPath readField fields decode v).mapError Failure.report) := by
    intro decode
    rw [map_readPath readField_reported]
    exact hreport fun w => (decode w).mapError Failure.report
  refine ⟨hreport, hfailure, fun decode => ⟨?_, Logged.readPath_log h decode⟩⟩
  rw [map_readPath Logged.readField_outcome]
  exact hfailure fun w => (decode w).outcome

/-- Two fields around a text that is neither an address nor bytes, read as an address, by a reader
that logs it, and by a decoder that goes wrong in its own way. -/
theorem readPath_carries_two :
    let leaf : Value := .text "zz"
    let inner : Value := .object [("account_address", leaf)] (.root .object)
    let v : Value := .object [("guid", inner)] (.root .object)
    let fields : List Text := ["guid", "account_address"]
    let fault : Base16.Fault := .notDigits (Text.unit 'z') (Text.unit 'z') 62
    let e : TextError := .address (.notDigits fault)
    let bug : Except Report Address := .error (.ofMessage "out of order")
    Value.Leads fields v leaf ∧ Address.ofValue leaf = .error (.unreadable e) ∧
      (readPath readField fields Address.ofValue v).mapError Failure.report =
        .error (.nested (some "malformed_object") (some e.message) (.ofTextError e) fields) ∧
      readPath Report.readField fields (fun _ => bug) v = bug ∧
      (readPath Logged.readField fields Blob.ofValue v).log.length = 1 := by
  intro leaf inner v fields fault e bug
  have hleads : Value.Leads fields v leaf := .next rfl (.last rfl nofun nofun)
  have hleaf : Address.ofValue leaf = .error (.unreadable e) := by decide +kernel
  have hlog : (Blob.ofValue leaf).log.length = 1 := by decide +kernel
  refine ⟨hleads, hleaf, ?_, ?_, ?_⟩
  · have haddress := (readPath_carries hleads).2.1 Address.ofValue
    rw [hleaf] at haddress
    generalize (readPath readField fields Address.ofValue v).mapError Failure.report = out
      at haddress ⊢
    cases haddress with
    | reader => rfl
    | other hkind => exact absurd rfl hkind.2
  · have hbug : Carried fields (.error (.mk .plain none none (some "out of order") none))
        (readPath Report.readField fields (fun _ => bug) v) :=
      (readPath_carries hleads).1 fun _ => bug
    generalize readPath Report.readField fields (fun _ => bug) v = out at hbug ⊢
    cases hbug with
    | other => rfl
  · rw [((readPath_carries hleads).2.2 Blob.ofValue).2, hlog]

end WireCodec

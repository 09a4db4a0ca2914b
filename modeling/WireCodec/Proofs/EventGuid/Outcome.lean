import WireCodec.Proofs.EventGuid.Object
import WireCodec.Proofs.Json.Texts

/-
**Which identifiers are not decided.**

A decoder of identifiers should give an identifier or an error of its own.  All steps do except
one: what passes for a number token may have anything in the place of its text, and that need not
be a text nor turn into one.

Main definitions:

* `EventGuid.HidesNumber`: the number field of a text passes for a token without a text;
* `EventGuid.Answers`: the decoder gives an identifier or its own error, and the check for validity
  says the same.

Main results:

* `U64.ofTokenText_cases`: the outcomes of reading what stands for a token's text;
* `EventGuid.hidesNumber_iff`: a hidden number in the value of a text;
* `EventGuid.answers_iff_not_hidesNumber`: the decoder answers unless the number is hidden.
-/

set_option relaxedAutoImplicit false
set_option autoImplicit false

namespace WireCodec

open Json (Value Doc Reading)

/-! ### Numbers -/

/-- What stands for a token's text becomes a number or is refused, unless it cannot be turned into a
text. -/
theorem U64.ofTokenText_cases {v : Value} (h : v = .missing ∨ ∃ d, v = Value.ofDoc .lossless d) :
    Decided (U64.ofTokenText v) ∨
      ∃ m, v.toText = .error m ∧ U64.ofTokenText v = .error (.misuse m) := by
  cases htext : v.toText with
  | error m =>
      refine .inr ⟨m, rfl, ?_⟩
      rw [ofTokenText, htext]
  | ok literal =>
      refine .inl ?_
      rw [ofTokenText, htext]
      simp only
      split
      · exact .inr ⟨_, rfl⟩
      next hsome =>
        have hne : Decimal.read? literal ≠ none := by simpa using hsome
        obtain ⟨n, hread⟩ := Option.ne_none_iff_exists'.1 hne
        rcases h with rfl | ⟨d, rfl⟩
        · rw [← Except.ok.inj htext] at hread
          cases hread
        · obtain ⟨i, hi⟩ := Json.Doc.toInteger_of_toText htext hread
          rw [hi]
          simp only
          split
          · exact .inl ⟨_, rfl⟩
          · exact .inr ⟨_, rfl⟩

/-- A value that does not pass for a number token becomes a number or is refused. -/
theorem U64.decided_ofValue {v : Value} (h : v.passesForToken = false) :
    Decided (U64.ofValue v) := by
  have hmap : ∀ x : Except DecodeError U64, Decided (x.mapError .decode) := by
    intro x
    cases x with
    | error e => exact .inr ⟨e, rfl⟩
    | ok u => exact .inl ⟨u, rfl⟩
  rw [U64.ofValue.eq_def]
  split
  · exact hmap _
  · split
    · exact hmap _
    · exact .inr ⟨_, rfl⟩
  · rw [if_neg (by simp [h])]
    exact .inr ⟨_, rfl⟩

/-! ### Addresses -/

/-- A field with an address is decided. -/
theorem Address.decided_ofValue (v : Value) (field : Text) :
    Decided ((Address.ofValue v).mapError (Failure.inField field)) := by
  rw [Address.ofValue.eq_def]
  split
  · next t =>
      cases Address.relaxed t with
      | error e => exact .inr ⟨_, rfl⟩
      | ok a => exact .inl ⟨a, rfl⟩
  · exact .inr ⟨_, rfl⟩

namespace EventGuid

/-! ### Identifiers -/

/-- An object is written that does not pose as a number itself.  Its number field passes for a
number token, and what this has in the place of the token's text cannot be turned into a text. -/
def HidesNumber (raw : Text) : Prop :=
  ∃ members number x, Json.WrittenSpaced Reading.lossless.admits (.object members) raw ∧
    ¬ (Doc.object members).Poses ∧ (Doc.object members).Has numberField number ∧
    number.PassesForNumber ∧ number.Has Value.valueKey x ∧ ¬ x.HasText

/-- A hidden number in the value of a text. -/
theorem hidesNumber_iff {raw : Text} :
    HidesNumber raw ↔ ∃ v, readJson raw .malformedObject "event GUID" = .ok v ∧
      v.isObject = true ∧ (v.get numberField).passesForToken = true ∧
      ∃ m, ((v.get numberField).get Value.valueKey).toText = .error m := by
  constructor
  · rintro ⟨members, number, x, hraw, hposes, hnumber, hpasses, hx, htext⟩
    refine ⟨_, readJson_eq_ok_iff.2 ⟨_, hraw, rfl⟩,
      Value.isObject_ofDoc_object_iff.2 hposes, ?_⟩
    rw [hnumber.get_eq isOrdinary_numberField.ne_parent,
      hx.get_eq Value.isOrdinary_valueKey.ne_parent]
    exact ⟨Value.passesForToken_ofDoc.2 hpasses, Json.Doc.not_hasText_iff.1 htext⟩
  · rintro ⟨v, hread, hobject, hpasses, m, hm⟩
    obtain ⟨d, hraw, rfl⟩ := readJson_eq_ok_iff.1 hread
    obtain ⟨hshape, hposes⟩ := Json.Doc.isObject_ofDoc_iff.1 hobject
    cases d with
    | null | bool | number | text | array => cases hshape
    | object members =>
        rcases isOrdinary_numberField.get_cases (.object members) with
          ⟨number, hnumber, hget⟩ | ⟨-, hget⟩
        · rw [hget] at hpasses hm
          rcases Value.isOrdinary_valueKey.get_cases number with ⟨x, hx, hvalue⟩ | ⟨-, hvalue⟩
          · rw [hvalue] at hm
            exact ⟨members, number, x, hraw, hposes, hnumber, Value.passesForToken_ofDoc.1 hpasses,
              hx, Json.Doc.not_hasText_iff.2 ⟨m, hm⟩⟩
          · rw [hvalue] at hm
            cases hm
        · rw [hget] at hpasses
          cases hpasses

/-- An identifier is decided if its number is. -/
theorem decided_ofValue {v : Value}
    (h : v.isObject = true → Decided (readField v numberField U64.ofValue)) :
    Decided (ofValue v) := by
  rw [ofValue]
  split
  next hobject =>
    have haddress : Decided (readField v addressField Address.ofValue) :=
      Decided.readField hobject (Address.decided_ofValue _ _)
    rcases h hobject with ⟨number, hnumber⟩ | ⟨e, hnumber⟩
    · rw [hnumber]
      simp only
      rcases haddress with ⟨address, haddress⟩ | ⟨e, haddress⟩
      · rw [haddress]
        exact .inl ⟨_, rfl⟩
      · rw [haddress]
        exact .inr ⟨e, rfl⟩
    · rw [hnumber]
      exact .inr ⟨e, rfl⟩
  next => exact .inr ⟨_, rfl⟩

/-- What stands for the text of the number in the value of a document. -/
theorem get_valueKey_ofDoc (d : Doc) :
    let x := ((Value.ofDoc .lossless d).get numberField).get Value.valueKey
    x = .missing ∨ ∃ d', x = Value.ofDoc .lossless d' := by
  rcases isOrdinary_numberField.get_ofDoc d with hmissing | ⟨d', hd'⟩
  · rw [hmissing]
    exact .inl rfl
  · rw [hd']
    exact Value.isOrdinary_valueKey.get_ofDoc d'

/-- A number that is not hidden is decided. -/
theorem decided_decode {raw : Text} (h : ¬ HidesNumber raw) : Decided (decode raw) := by
  rw [decode]
  split
  · exact .inr ⟨_, rfl⟩
  next v hread =>
    refine decided_ofValue fun hobject => Decided.readField hobject ?_
    refine Decided.mapError_inField ?_ numberField
    by_cases hpasses : (v.get numberField).passesForToken = true
    · -- only what stands for the text of a token can escape
      obtain ⟨d, -, rfl⟩ := readJson_eq_ok_iff.1 hread
      rw [U64.ofValue_of_passesForToken hpasses]
      rcases U64.ofTokenText_cases (get_valueKey_ofDoc d) with hdecided | ⟨m, hm, -⟩
      · exact hdecided
      · exact absurd (hidesNumber_iff.2 ⟨_, hread, hobject, hpasses, m, hm⟩) h
    · exact U64.decided_ofValue (by simpa using hpasses)

/-- The misuse of a hidden number passes through the decoder. -/
theorem HidesNumber.decode_eq {raw : Text} (h : HidesNumber raw) :
    ∃ m, decode raw = .error (.misuse m) := by
  obtain ⟨v, hread, hobject, hpasses, m, hm⟩ := hidesNumber_iff.1 h
  have htext : U64.ofValue (v.get numberField) = .error (.misuse m) := by
    rw [U64.ofValue_of_passesForToken hpasses, U64.ofTokenText, hm]
  have hnumber : readField v numberField U64.ofValue = .error (.misuse m) := by
    rw [readField_of_isObject hobject]
    split
    · next hmissing =>
        rw [hmissing] at hpasses
        cases hpasses
    · next hnull =>
        rw [hnull] at hpasses
        cases hpasses
    · rw [htext]
      rfl
  refine ⟨m, ?_⟩
  rw [decode, hread]
  simp only
  rw [ofValue, if_pos hobject, hnumber]

/-- The decoder gives an identifier or an error of its own, and the check for validity says the
same. -/
def Answers (raw : Text) : Prop :=
  (∃ g, (codec.decode raw).outcome = .ok g ∧ validity raw = .ok .valid) ∨
    ∃ e, (codec.decode raw).outcome = .error (.decode e) ∧
      validity raw = .ok (.invalid e.reason.name e.message)

/-- **The decoder answers unless the number is hidden.**  Then a misuse escapes from the decoder and
from the check for validity. -/
theorem answers_iff_not_hidesNumber (raw : Text) :
    (Answers raw ↔ ¬ HidesNumber raw) ∧
      (HidesNumber raw → ∃ m, (codec.decode raw).outcome = .error (.misuse m) ∧
        validity raw = .error (.misuse m)) := by
  have houtcome : (codec.decode raw).outcome = decode raw := rfl
  rw [Answers, houtcome, validity]
  refine ⟨⟨fun hanswers hhides => ?_, fun h => ?_⟩, fun hhides => ?_⟩
  · obtain ⟨m, hm⟩ := hhides.decode_eq
    rw [hm] at hanswers
    rcases hanswers with ⟨g, hg, -⟩ | ⟨e, he, -⟩
    · cases hg
    · cases he
  · rcases decided_decode h with ⟨g, hg⟩ | ⟨e, he⟩
    · rw [hg]
      exact .inl ⟨g, rfl, rfl⟩
    · rw [he]
      exact .inr ⟨e, rfl, rfl⟩
  · obtain ⟨m, hm⟩ := hhides.decode_eq
    rw [hm]
    exact ⟨m, rfl, rfl⟩

/-- The number of an object whose method for texts is shadowed. -/
theorem answers_iff_not_hidesNumber_shadowed :
    let raw : Text := Text.concat ["\x7b\"creation_number\":\x7b\"isLosslessNumber\":true,",
      "\"value\":[\x7b\"toString\":1\x7d]\x7d\x7d"]
    HidesNumber raw ∧ ∃ m, (codec.decode raw).outcome = .error (.misuse m) ∧
      validity raw = .error (.misuse m) := by
  let number : Doc := .object [(Value.tokenKey, .bool true),
    (Value.valueKey, .array [.object [("toString", .number (Json.Numeral.ofNat 1))]])]
  let d : Doc := .object [(numberField, number)]
  intro raw
  have hd : d.IsWritable Json.Reading.lossless.admits := by
    refine ⟨⟨trivial, rfl, ?_, rfl, trivial⟩, rfl, trivial⟩
    exact ⟨⟨Json.Numeral.isToken_ofNat 1, rfl, trivial⟩, trivial⟩
  have hread : readJson raw .malformedObject "event GUID" = .ok (Value.ofDoc .lossless d) := by
    rw [show raw = d.print by decide +kernel]
    exact readJson_print hd
  have hhides : HidesNumber raw := hidesNumber_iff.2
    ⟨_, hread, by decide +kernel, by decide +kernel, .notConvertible, by decide +kernel⟩
  exact ⟨hhides, (answers_iff_not_hidesNumber raw).2 hhides⟩

/-- A text that is not answered: a misuse escapes. -/
theorem not_answers_of_shadowed_method :
    let raw : Text := Text.concat ["\x7b\"creation_number\": \x7b\"isLosslessNumber\":true,",
      "\"value\":\x7b\"toString\":1\x7d\x7d, \"account_address\": \"0x1\"\x7d"]
    ¬ Answers raw ∧ (codec.decode raw).outcome = .error (.misuse .notConvertible) ∧
      validity raw = .error (.misuse .notConvertible) := by
  intro raw
  have houtcome : (codec.decode raw).outcome = .error (.misuse .notConvertible) := by
    decide +kernel
  refine ⟨?_, houtcome, by decide +kernel⟩
  rintro (⟨g, hg, -⟩ | ⟨e, he, -⟩)
  · rw [houtcome] at hg
    cases hg
  · rw [houtcome] at he
    cases he

end EventGuid

end WireCodec

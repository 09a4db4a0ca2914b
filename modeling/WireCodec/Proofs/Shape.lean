import WireCodec.U64
import WireCodec.Proofs.Decoding
import WireCodec.Proofs.Json.Reading

/-
**Shapes of documents and kinds of values.**

A number token is recognised by a member, so an object that has such a member, or inherits it,
poses as a number.  Every other value has the kind that its document is written in, and no null, no
truth value, no array and no other object is taken for a number of 64 bits.

Main definitions:

* `Json.Doc.Poses`: an object that passes for a number;
* `KeepsShape`: a value is of the kind of a shape, and a number only if the shape allows it.

Main results:

* `Json.Doc.kind_ofDoc`: the kind of a value that does not pose;
* `keepsShape_iff_not_poses`: what is read keeps its shape unless it poses.
-/

set_option relaxedAutoImplicit false
set_option autoImplicit false

namespace WireCodec

open Json (Value Doc Reading)

/-! ### Kinds -/

/-- An object that passes for a number. -/
def Json.Doc.Poses (d : Doc) : Prop := d.shape = .object ∧ d.PassesForNumber

/-- An object that does not say so and has no parent does not pose. -/
theorem Json.Doc.not_poses_of_unsaid {members : List (Text × Doc)}
    (hsaid : (Value.tokenKey, Doc.bool true) ∉ members)
    (hparent : ∀ m ∈ members, m.1 ≠ Value.parentKey) : ¬ (Doc.object members).Poses := by
  rintro ⟨-, hpasses⟩
  cases hpasses with
  | said h => exact hsaid (mem_of_lastMember? h)
  | inherited _ h => rw [parentMember?_eq_none hparent] at h; cases h

/-- An object that writes neither of the two names does not pose. -/
theorem Json.Doc.not_poses_of_unused {members : List (Text × Doc)}
    (htoken : ∀ m ∈ members, m.1 ≠ Value.tokenKey)
    (hparent : ∀ m ∈ members, m.1 ≠ Value.parentKey) : ¬ (Doc.object members).Poses :=
  not_poses_of_unsaid (fun hmem => htoken _ hmem rfl) hparent

theorem Json.Value.passesForToken_iff {v : Value} (h : v.isComposite = true) :
    v.passesForToken = true ↔ v.find? Value.tokenKey = some (.bool true) := by
  rw [Value.passesForToken, h, Bool.true_and, Value.isOrdinary_tokenKey.get_eq]
  cases v.find? Value.tokenKey with
  | none => simp
  | some x => cases x <;> simp

theorem Json.Value.passesForToken_ofDoc {d : Doc} :
    (Value.ofDoc .lossless d).passesForToken = true ↔ d.PassesForNumber := by
  cases d with
  | null | bool | text => exact iff_of_false nofun nofun
  | number n => exact iff_of_true rfl (.number n)
  | array | object =>
      rw [Doc.passesForNumber_iff]
      exact Value.passesForToken_iff (by rw [Value.ofDoc]; rfl)

/-- The kind of a value is the shape that its document is written in, unless it poses. -/
theorem Json.Doc.kind_ofDoc {d : Doc} (h : ¬ d.Poses) :
    (Value.ofDoc .lossless d).kind = d.shape.kind := by
  cases d with
  | null | bool b | number n | text t | array items => rfl
  | object members =>
      have hnot := mt Value.passesForToken_ofDoc.1 fun hp => h ⟨rfl, hp⟩
      rw [Value.ofDoc_object] at hnot ⊢
      exact if_neg hnot

theorem Json.Doc.Poses.passesForToken {d : Doc} (h : d.Poses) :
    (Value.ofDoc .lossless d).passesForToken = true := Value.passesForToken_ofDoc.2 h.2

/-- What poses is of the kind of numbers. -/
theorem Json.Doc.Poses.kind {d : Doc} (h : d.Poses) :
    (Value.ofDoc .lossless d).kind = .number := by
  have hpasses := h.passesForToken
  obtain ⟨hshape, -⟩ := h
  cases d with
  | object members =>
      rw [Value.ofDoc_object] at hpasses ⊢
      exact if_pos hpasses
  | null | bool b | number n | text t | array items => cases hshape

/-- Objects are what is written as one and does not pose. -/
theorem Json.Doc.isObject_ofDoc_iff {d : Doc} :
    (Value.ofDoc .lossless d).isObject = true ↔ d.shape = .object ∧ ¬ d.Poses := by
  by_cases hposes : d.Poses
  · rw [Value.isObject, hposes.kind]
    exact iff_of_false nofun fun h => h.2 hposes
  · rw [Value.isObject, Json.Doc.kind_ofDoc hposes]
    cases d <;> simp [Doc.shape, Doc.Shape.kind, hposes]

theorem Json.Value.isObject_ofDoc_object_iff {members : List (Text × Doc)} :
    (Value.ofDoc .lossless (.object members)).isObject = true ↔ ¬ (Doc.object members).Poses := by
  rw [Json.Doc.isObject_ofDoc_iff]
  exact and_iff_right rfl

/-! ### Numbers -/

/-- What passes for a number token is read by its text. -/
theorem U64.ofValue_of_passesForToken {v : Value} (h : v.passesForToken = true) :
    U64.ofValue v = U64.ofTokenText (v.get Value.valueKey) := by
  cases v with
  | text t | double x => cases h
  | missing | null | bool b | integer i | token n | array items | object members parent | root r
  | method owner =>
      rw [U64.ofValue.eq_def]
      simp only
      rw [if_pos h]

/-- Nothing but texts and what passes for a number becomes a number. -/
theorem U64.ofValue_ofDoc {d : Doc} (h : ¬ d.Poses) (htext : d.shape ≠ .text)
    (hnumber : d.shape ≠ .number) :
    U64.ofValue (Value.ofDoc .lossless d) = .error (.decode (.unexpected .u64 d.shape.kind)) := by
  have hkind := Json.Doc.kind_ofDoc h
  cases d with
  | text t => exact absurd rfl htext
  | number n => exact absurd rfl hnumber
  | null | bool b | array items => rfl
  | object members =>
      have hnot := mt Value.passesForToken_ofDoc.1 fun hp => h ⟨rfl, hp⟩
      rw [← hkind]
      rw [Value.ofDoc_object] at hnot ⊢
      exact if_neg hnot

/-! ### Shapes -/

/-- A value is of the kind of a shape: it is an object exactly if the shape is, and it is refused
as a number of 64 bits unless the shape is a text or a number. -/
structure KeepsShape (s : Doc.Shape) (v : Value) : Prop where
  kind : v.kind = s.kind
  isObject : v.isObject = true ↔ s = .object
  refused : s ≠ .text → s ≠ .number →
    ∃ e, U64.ofValue v = .error (.decode e) ∧ e.reason = .malformedNumber

theorem keepsShape_ofDoc {d : Doc} (h : ¬ d.Poses) :
    KeepsShape d.shape (Value.ofDoc .lossless d) where
  kind := Json.Doc.kind_ofDoc h
  isObject := by
    rw [Value.isObject, Json.Doc.kind_ofDoc h]
    cases d.shape <;> decide
  refused htext hnumber := ⟨_, U64.ofValue_ofDoc h htext hnumber, rfl⟩

/-- **What is read keeps the shape it is written in unless it poses.**  A text that is read writes
a document, whose shape its first unit tells.  An object that poses is a number, is no object, and
becomes the number of what it has for the text of a token. -/
theorem keepsShape_iff_not_poses {t : Text} {reason : DecodeReason} {typeName : Text} {v : Value}
    (h : readJson t reason typeName = .ok v) :
    ∃ d u, Json.WrittenSpaced Reading.lossless.admits d t ∧ (Json.skipSpace t).head? = some u ∧
      Doc.Shape.ofUnit? u = some d.shape ∧ (KeepsShape d.shape v ↔ ¬ d.Poses) ∧
      (d.Poses → v.kind = .number ∧ v.isObject = false ∧
        U64.ofValue v = U64.ofTokenText (v.get Value.valueKey)) := by
  obtain ⟨d, hd, rfl⟩ := readJson_eq_ok_iff.1 h
  obtain ⟨u, hhead, hu⟩ := hd.exists_head
  refine ⟨d, u, hd, hhead, hu, ⟨fun hkeeps hposes => ?_, keepsShape_ofDoc⟩, fun hposes => ?_⟩
  · have hkind := hkeeps.kind
    rw [hposes.kind, hposes.1] at hkind
    cases hkind
  · refine ⟨hposes.kind, ?_, U64.ofValue_of_passesForToken hposes.passesForToken⟩
    rw [Value.isObject, hposes.kind]
    rfl

/-- An object with a number for its parent. -/
theorem keepsShape_iff_not_poses_parent :
    let t : Text := "\x7b\"__proto__\":5,\"value\":7\x7d"
    ∃ v, readJson t .malformedObject "value" = .ok v ∧
      ∃ d u, Json.WrittenSpaced Reading.lossless.admits d t ∧
        (Json.skipSpace t).head? = some u ∧ Doc.Shape.ofUnit? u = some d.shape ∧
        (KeepsShape d.shape v ↔ ¬ d.Poses) ∧
        (d.Poses → v.kind = .number ∧ v.isObject = false ∧
          U64.ofValue v = U64.ofTokenText (v.get Value.valueKey)) := by
  let d : Doc := .object [(Value.parentKey, .number (Json.Numeral.ofNat 5)),
    (Value.valueKey, .number (Json.Numeral.ofNat 7))]
  have hd : d.IsWritable Reading.lossless.admits :=
    ⟨Json.Numeral.isToken_ofNat 5, rfl, Json.Numeral.isToken_ofNat 7, rfl, trivial⟩
  intro t
  have hread : readJson t .malformedObject "value" = .ok (Value.ofDoc .lossless d) := by
    rw [show t = d.print by decide +kernel]
    exact readJson_print hd
  exact ⟨_, hread, keepsShape_iff_not_poses hread⟩

/-- A shape that is not kept: an object that says that it is a number. -/
theorem not_keepsShape_of_said :
    let t : Text := "\x7b\"isLosslessNumber\":true,\"value\":\"6\"\x7d"
    ∃ d v, Json.WrittenSpaced Reading.lossless.admits d t ∧ d.shape = .object ∧
      readJson t .malformedObject "value" = .ok v ∧ ¬ KeepsShape d.shape v ∧
      v.kind = .number ∧ v.isObject = false ∧ U64.ofValue v = .ok ⟨6, by decide⟩ := by
  let d : Doc := .object [(Value.tokenKey, .bool true), (Value.valueKey, .text "6")]
  have hd : d.IsWritable Reading.lossless.admits := ⟨trivial, rfl, trivial, rfl, trivial⟩
  intro t
  have ht : t = d.print := by decide +kernel
  have hkind : (Value.ofDoc .lossless d).kind = .number := by decide +kernel
  refine ⟨d, Value.ofDoc .lossless d, ?_, rfl, ?_, ?_, hkind, by decide +kernel, by decide +kernel⟩
  · rw [ht]
    exact hd.written_print.spaced
  · rw [ht]
    exact readJson_print hd
  · intro hkeeps
    have hobject := hkeeps.kind
    rw [hkind] at hobject
    cases hobject

end WireCodec

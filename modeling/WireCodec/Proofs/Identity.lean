import WireCodec.Proofs.Blob.RoundTrip
import WireCodec.Proofs.EventGuid.RoundTrip
import WireCodec.Proofs.Hash
import WireCodec.Proofs.U64.Agreement

/-
**Canonical text identifies the value.**

Values are compared by their content: numbers by value, bytes place by place, texts unit by unit,
identifiers part by part.  Whatever is written for a value is read back as the value, so two values
with one text would be the same value, and the comparison could as well be one of texts.

Main definitions:

* `Identified`: a comparison, equality and the equality of written forms are the same.

Main results:

* `injective_of_reads`: what is read back is written differently for different values;
* `U64.equals_iff`, `Hex.equals_iff`, `Blob.equals_iff`, `Hash.equals_iff`, `EventGuid.equals_iff`:
  the comparisons decide equality;
* `canonicalText_identifies`: **the comparison of two values of one type is that of their texts and
  of their canonical JSON texts**.
-/

set_option relaxedAutoImplicit false
set_option autoImplicit false

namespace WireCodec

open Json (Doc Reading)

/-! ### What is read back -/

section

variable {α ε : Type}

/-- What is read back is written differently for different values. -/
theorem injective_of_reads {write : α → Text} (read : Text → Except ε α)
    (h : ∀ a, read (write a) = .ok a) : Function.Injective write := by
  intro a b hab
  have ha := h a
  rw [hab, h b] at ha
  exact (Except.ok.inj ha).symm

theorem Codec.injective_encode {c : Codec α} (h : ∀ a, c.decode (c.encode a) = .ofExcept (.ok a)) :
    Function.Injective c.encode :=
  injective_of_reads (fun t => (c.decode t).outcome) fun a => congrArg Logged.outcome (h a)

end

/-- Between quotes different texts are written differently. -/
theorem Json.quoted_injective : Function.Injective Json.quoted := by
  intro s t hst
  have hs : Doc.parse Reading.lossless.admits (Json.quoted s) = .ok (.text s) :=
    Doc.IsWritable.parse_print (d := .text s) trivial
  have ht : Doc.parse Reading.lossless.admits (Json.quoted t) = .ok (.text t) :=
    Doc.IsWritable.parse_print (d := .text t) trivial
  rw [hst, ht] at hs
  exact (Doc.text.inj (Except.ok.inj hs)).symm

/-! ### Comparisons -/

theorem U64.equals_iff {a b : U64} : a.equals b = true ↔ a = b := by
  rw [equals, beq_iff_eq, U64.ext_iff]

theorem Hex.equals_iff {a b : Hex} : a.equals b = true ↔ a = b := by
  rw [equals, Bytes.same_iff, Hex.ext_iff]

theorem Blob.equals_iff {a b : Blob} : a.equals b = true ↔ a = b := by
  rw [equals, Bytes.same_iff, Blob.ext_iff]

theorem Hash.equals_iff {a b : Hash} : a.equals b = true ↔ a = b := by
  rw [equals, beq_iff_eq, Hash.ext_iff]

theorem EventGuid.equals_iff {a b : EventGuid} : a.equals b = true ↔ a = b := by
  rw [equals, Bool.and_eq_true, U64.equals_iff, Address.equals_iff, EventGuid.ext_iff]

/-! ### Texts -/

theorem U64.text_injective : Function.Injective U64.text := injective_of_reads ofText ofText_text

theorem Hex.text_injective : Function.Injective Hex.text := injective_of_reads ofText ofText_text

theorem Blob.text_injective : Function.Injective Blob.text :=
  injective_of_reads (fun t => (ofText t).outcome) fun b => congrArg Logged.outcome b.ofText_text

theorem Address.text_injective : Function.Injective Address.text :=
  injective_of_reads relaxed relaxed_text

theorem Hash.text_injective : Function.Injective Hash.text := fun _ _ => Hash.ext

theorem EventGuid.text_injective : Function.Injective EventGuid.text :=
  injective_of_reads decode decode_text

theorem Address.encode_injective : Function.Injective Address.encode :=
  fun _ _ h => text_injective (Json.quoted_injective h)

/-! ### Identity -/

/-- A comparison decides equality, whatever the order of the two values, and equality is that of
each written form. -/
structure Identified {α : Type} (equals : α → α → Bool) (forms : List (α → Text)) : Prop where
  eq : ∀ a b, equals a b = true ↔ a = b
  comm : ∀ a b, equals a b = true ↔ equals b a = true
  form : ∀ f ∈ forms, ∀ a b, equals a b = true ↔ f a = f b

/-- A comparison that decides equality identifies by written forms that differ. -/
theorem Identified.of_injective {α : Type} {equals : α → α → Bool} {forms : List (α → Text)}
    (heq : ∀ {a b}, equals a b = true ↔ a = b) (hforms : ∀ f ∈ forms, Function.Injective f) :
    Identified equals forms where
  eq _ _ := heq
  comm a b := by rw [heq, heq, eq_comm]
  form f hf a b := by
    rw [heq]
    exact ⟨congrArg f, fun h => hforms f hf h⟩

/-- **The comparison of two values of one type is that of their texts and of their canonical JSON
texts.**  It does not depend on the order of the two.  Different values share no text, and one
value has no two. -/
theorem canonicalText_identifies :
    Identified U64.equals [U64.text, U64.codec.encode] ∧
    Identified Hex.equals [Hex.text] ∧
    Identified Blob.equals [Blob.text, Blob.codec.encode] ∧
    Identified Address.equals [Address.text, Address.encode] ∧
    Identified Hash.equals [Hash.text, Hash.codec.encode] ∧
    Identified EventGuid.equals [EventGuid.text, EventGuid.codec.encode] := by
  refine ⟨.of_injective U64.equals_iff ?_, .of_injective Hex.equals_iff ?_,
    .of_injective Blob.equals_iff ?_, .of_injective Address.equals_iff ?_,
    .of_injective Hash.equals_iff ?_, .of_injective EventGuid.equals_iff ?_⟩
  · have hencode := Codec.injective_encode U64.codec_decode_encode
    simpa using ⟨U64.text_injective, hencode⟩
  · simpa using Hex.text_injective
  · have hencode : Function.Injective Blob.codec.encode := Codec.injective_encode Blob.decode_encode
    simpa using ⟨Blob.text_injective, hencode⟩
  · simpa using ⟨Address.text_injective, Address.encode_injective⟩
  · have hencode : Function.Injective Hash.codec.encode :=
      Codec.injective_encode fun h => congrArg Logged.ofExcept h.decode_encode
    simpa using ⟨Hash.text_injective, hencode⟩
  · have hencode : Function.Injective EventGuid.codec.encode :=
      Codec.injective_encode fun g => congrArg Logged.ofExcept g.decode_text
    simpa using ⟨EventGuid.text_injective, hencode⟩

end WireCodec

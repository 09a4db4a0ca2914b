import WireCodec.Proofs.Decimal
import WireCodec.Proofs.Shape

/-
**Documents that denote numbers of 64 bits.**

A text and a number token are read alike: what stands between the quotes, or the token, has to be
one or more digits of a number that is not too large.

Main definitions:

* `Json.Doc.literal?`: the content of a text, or a token;
* `Json.Doc.DenotesU64`: the literal is digits of a number of 64 bits.

Main results:

* `U64.ofTokenText_text`: the text of a token is read like any literal;
* `U64.ofValue_of_denotes`, `U64.exists_error_of_not_denotes`: what denotes a number is read as the
  number, and anything else that does not pose as one is refused.
-/

set_option relaxedAutoImplicit false
set_option autoImplicit false

namespace WireCodec

open Json (Value Doc)

/-! ### Literals -/

/-- The content of a text, or a number token as it is written. -/
def Json.Doc.literal? : Doc → Option Text
  | .text t => some t
  | .number n => some n.text
  | _ => none

/-- The document is a text or a number token of digits only, and these denote the number, which has
no more than 64 bits. -/
def Json.Doc.DenotesU64 (d : Doc) (n : Nat) : Prop :=
  ∃ ds : List Digit, ds ≠ [] ∧ d.literal? = some (Decimal.spell ds) ∧ Decimal.number ds = n ∧
    n ≤ maxU64

theorem Json.Doc.DenotesU64.ne_null {d : Doc} {n : Nat} (h : d.DenotesU64 n) : d ≠ .null := by
  rintro rfl
  obtain ⟨ds, -, hliteral, -⟩ := h
  cases hliteral

namespace U64

/-- A literal is read as the number of its digits. -/
theorem ofText_spell {ds : List Digit} (hne : ds ≠ []) (hle : Decimal.number ds ≤ maxU64) :
    ofText (Decimal.spell ds) = .ok ⟨Decimal.number ds, hle⟩ := by
  rw [ofText, Decimal.read?_eq_some_iff.2 ⟨ds, hne, rfl, rfl⟩]
  exact dif_pos hle

/-- A literal that is not digits of a number of 64 bits is refused. -/
theorem ofText_eq_error {t : Text}
    (h : ∀ ds, ds ≠ [] → t = Decimal.spell ds → ¬ Decimal.number ds ≤ maxU64) :
    ofText t = .error (.invalidLiteral t) ∨ ofText t = .error (.literalTooLarge t) := by
  rw [ofText]
  cases hread : Decimal.read? t with
  | none => exact .inl rfl
  | some n =>
      obtain ⟨ds, hne, ht, hn⟩ := Decimal.read?_eq_some_iff.1 hread
      have hlarge : ¬ n ≤ maxU64 := by
        rw [← hn]
        exact h ds hne ht
      exact .inr (dif_neg hlarge)

/-- The text of a token is read like any literal. -/
theorem ofTokenText_text (t : Text) : ofTokenText (.text t) = (ofText t).mapError .decode := by
  rw [ofTokenText, ofText]
  have htext : (Value.text t).toText = .ok t := rfl
  rw [htext]
  simp only
  cases hread : Decimal.read? t with
  | none => rfl
  | some n =>
      have hinteger : (Value.text t).toInteger = .ok (n : Int) := by
        have heq : (Value.text t).toInteger = .ok (((Decimal.read? t).getD 0 : Nat) : Int) := rfl
        rw [heq, hread]
        rfl
      rw [hinteger]
      simp only [Option.isNone_some, Bool.false_eq_true, if_false, Int.toNat_natCast]
      split <;> rfl

/-- The content of a text and the text of a token are read alike. -/
theorem ofValue_of_literal? {d : Doc} {t : Text} (h : d.literal? = some t) :
    ofValue (.ofDoc .lossless d) = (ofText t).mapError .decode := by
  cases d with
  | text t' =>
      rw [← Option.some_inj.1 h]
      rfl
  | number n =>
      rw [← Option.some_inj.1 h]
      have hget : (Value.token n).get Value.valueKey = .text n.text := rfl
      rw [Value.ofDoc, Json.Reading.number, ofValue_of_passesForToken (by rfl), hget,
        ofTokenText_text]
  | null | bool | array | object => cases h

/-! ### Documents -/

/-- What denotes a number is read as the number. -/
theorem ofValue_of_denotes {d : Doc} {n : Nat} (h : d.DenotesU64 n) :
    ∃ u : U64, ofValue (.ofDoc .lossless d) = .ok u ∧ u.value = n := by
  obtain ⟨ds, hne, hliteral, rfl, hle⟩ := h
  refine ⟨⟨Decimal.number ds, hle⟩, ?_, rfl⟩
  rw [ofValue_of_literal? hliteral, ofText_spell hne hle]
  rfl

/-- What denotes no number is refused, unless it poses as one. -/
theorem exists_error_of_not_denotes {d : Doc} (hposes : ¬ d.Poses) (h : ∀ n, ¬ d.DenotesU64 n) :
    ∃ e, ofValue (.ofDoc .lossless d) = .error (.decode e) ∧ e.reason = .malformedNumber ∧
      Report.ofDecodeError e = .ofRefusal "malformed_number" e.message := by
  cases hliteral : d.literal? with
  | some t =>
      rw [ofValue_of_literal? hliteral]
      have hrefused : ∀ ds, ds ≠ [] → t = Decimal.spell ds → ¬ Decimal.number ds ≤ maxU64 := by
        intro ds hne ht hle
        exact h _ ⟨ds, hne, by rw [hliteral, ht], rfl, hle⟩
      rcases ofText_eq_error hrefused with herror | herror
      · rw [herror]
        exact ⟨_, rfl, rfl, rfl⟩
      · rw [herror]
        exact ⟨_, rfl, rfl, rfl⟩
  | none =>
      refine ⟨_, ofValue_ofDoc hposes ?_ ?_, rfl, rfl⟩
      · rintro hshape
        cases d with
        | text t => cases hliteral
        | null | bool | number | array | object => cases hshape
      · rintro hshape
        cases d with
        | number n => cases hliteral
        | null | bool | text | array | object => cases hshape

end U64

end WireCodec

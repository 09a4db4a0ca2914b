import WireCodec.Proofs.Decimal
import WireCodec.Proofs.Json.Conversion
import WireCodec.Proofs.Json.Lookup
import WireCodec.U64

/-
**The lower bound that the digits stand for.**

The reader of literals compares a number with the upper bound only.  For a text this is enough, for
digits have no sign.  But the value in the place of a number token's text may have members, and it
is then read twice: as a text, which has to be digits, and as an integer, by the same two methods in
the other order.  The two readings can differ only where the method for numbers is a token's.  Then
the method for texts is that token's too, so the integer is the number of the digits, in double
precision perhaps, and has no sign either.

Main definitions:

* `Json.Value.IsRead`: the values that a source can supply, and their members;
* `Json.Value.MethodsAgree`: who supplies the two methods;
* `U64.unchecked`: the integer that the reader of literals takes, without a lower bound.

Main results:

* `Json.Value.toInteger_nonneg`: what reads as digits reads as no integer below zero;
* `U64.map_ofTokenText`: **the lower bound may be left out**.
-/

set_option relaxedAutoImplicit false
set_option autoImplicit false

namespace WireCodec

/-! ### Signs in double precision -/

namespace Binary64

theorem isNegative_ofRounded (negative : Bool) (mantissa : Nat) (exponent : Int) :
    (ofRounded negative mantissa exponent).isNegative = negative := by
  rw [ofRounded]
  split
  · split <;> rfl
  · split <;> rfl

theorem isNegative_ofQuotient (negative : Bool) (n d : Nat) :
    (ofQuotient negative n d).isNegative = negative := by
  rw [ofQuotient]
  split
  · rfl
  · exact isNegative_ofRounded _ _ _

theorem isNegative_ofDecimal (negative : Bool) (coefficient : Nat) (exponent : Int) :
    (ofDecimal negative coefficient exponent).isNegative = negative := by
  rw [ofDecimal]
  split
  · rfl
  split
  · rfl
  split
  · rfl
  · exact isNegative_ofQuotient _ _ _

/-- A number that is scanned has the sign that is scanned. -/
theorem isNegative_of_scan {t rest : Text} {x : Binary64} (h : scan t = some (x, rest)) :
    x.isNegative = (scanSign t).1 := by
  rw [scan] at h
  simp only at h
  split at h
  · rw [← (Prod.mk.inj (Option.some_inj.1 h)).1]
    rfl
  split at h
  · cases h
  · rw [← (Prod.mk.inj (Option.some_inj.1 h)).1]
    exact isNegative_ofDecimal _ _ _

/-- Digits are scanned from the first one on, as a number without a sign. -/
theorem isNegative_ofPrefix {t : Text} {n : Nat} (h : Decimal.read? t = some n) :
    (ofPrefix t).isNegative = false := by
  obtain ⟨ds, hne, rfl, -⟩ := Decimal.read?_eq_some_iff.1 h
  obtain ⟨d, rest, rfl⟩ := List.exists_cons_of_ne_nil hne
  have hblank : ∀ d : Digit, Text.isBlank d.unit = false := by decide
  have hsign : ∀ d : Digit, d.unit ≠ Decimal.minus ∧ d.unit ≠ Text.unit '+' := by decide
  rw [ofPrefix, Decimal.spell, List.map_cons, List.dropWhile_cons, hblank,
    if_neg Bool.false_ne_true]
  split
  next x after hscan =>
    rw [isNegative_of_scan hscan, scanSign, if_neg (hsign d).1, if_neg (hsign d).2]
  next => rfl

theorem truncate_nonneg_of_not_negative {x : Binary64} (h : x.isNegative = false) :
    0 ≤ x.truncate := by
  rw [truncate, h]
  exact Int.natCast_nonneg _

/-- A number that is written with digits only is not below zero; a zero has lost its sign. -/
theorem truncate_nonneg_of_text {x : Binary64} {n : Nat} (h : Decimal.read? x.text = some n) :
    0 ≤ x.truncate := by
  cases x with
  | nan => exact truncate_nonneg_of_not_negative rfl
  | infinite negative =>
      cases negative with
      | false => exact truncate_nonneg_of_not_negative rfl
      | true => cases h
  | finite negative m e =>
      cases negative with
      | false => exact truncate_nonneg_of_not_negative rfl
      | true =>
          by_cases hm : m = 0
          · simp [hm, truncate, magnitude, isNegative]
          · rw [text, if_neg hm, signed, if_pos rfl, Decimal.read?_minus_cons] at h
            cases h

end Binary64

namespace Json

namespace Value

/-! ### Integers of values without members -/

/-- What is spelled with digits only is not below zero. -/
theorem plainInteger_nonneg {x : Value} {n : Nat} (h : Decimal.read? x.spell = some n) :
    0 ≤ x.plainInteger := by
  cases x with
  | integer i =>
      rw [spell, Decimal.read?_intText_eq_some_iff] at h
      rw [plainInteger, h]
      exact Int.natCast_nonneg n
  | double x => exact Binary64.truncate_nonneg_of_text h
  | missing | null | bool | text | token | array | object | root | method =>
      exact Int.natCast_nonneg _

/-- The number of a token of digits is not below zero. -/
theorem plainInteger_nonneg_of_token {t : Text} {x : Value} {n : Nat}
    (hread : Decimal.read? t = some n) (h : tokenNumber t = .ok x) : 0 ≤ x.plainInteger := by
  rw [tokenNumber, readInt?_of_read? hread] at h
  simp only at h
  split at h
  · rw [← Except.ok.inj h]
    exact Binary64.truncate_nonneg_of_not_negative (Binary64.isNegative_ofPrefix hread)
  · rw [← Except.ok.inj h]
    exact Int.natCast_nonneg n

/-! ### The two orders -/

/-- Where the method for numbers is a token's, no other root supplies the method for texts. -/
def MethodsAgree (v : Value) : Prop :=
  ∀ owner, v.find? textMethod = some (.method owner) →
    v.find? numberMethod = some (.method .token) → owner = .token

section

variable {simplify : Wanted → Value → Except Misuse Value} {v x y : Value} {n : Nat}

/-- What answers is a method. -/
theorem exists_owner_of_answer {name : Text} (h : answer simplify v name = .ok (some x)) :
    ∃ owner, v.find? name = some (.method owner) ∧ call simplify owner name v = .ok (some x) := by
  rw [answer] at h
  split at h
  next owner hfind => exact ⟨owner, hfind, h⟩
  next => cases h

/-- If both methods answer, they are a token's and answer with its text and its number. -/
theorem plainInteger_nonneg_of_answers (hv : v.MethodsAgree)
    (htext : answer simplify v textMethod = .ok (some x))
    (hnumber : answer simplify v numberMethod = .ok (some y))
    (hread : Decimal.read? x.spell = some n) : 0 ≤ y.plainInteger := by
  obtain ⟨owner, hfind, hcall⟩ := exists_owner_of_answer hnumber
  obtain ⟨rfl, t, hget, hy⟩ := exists_token_of_call hcall
  obtain ⟨owner', hfind', hcall'⟩ := exists_owner_of_answer htext
  -- so the digits that were found are those of the text whose number this is
  obtain rfl := hv owner' hfind' hfind
  obtain ⟨hx, -⟩ := get_valueKey_of_call hcall'
  rw [← hx, hget] at hread
  exact plainInteger_nonneg_of_token hread hy

/-- If the method for texts is asked first and digits are found, then the other order finds no
number below zero. -/
theorem plainInteger_nonneg_of_firstAnswer (hv : v.MethodsAgree)
    (hx : firstAnswer simplify v [textMethod, numberMethod] = .ok x)
    (hy : firstAnswer simplify v [numberMethod, textMethod] = .ok y)
    (hread : Decimal.read? x.spell = some n) : 0 ≤ y.plainInteger := by
  cases hnumber : answer simplify v numberMethod with
  | error misuse => rw [firstAnswer_of_error hnumber] at hy; cases hy
  | ok answered =>
      cases htext : answer simplify v textMethod with
      | error misuse => rw [firstAnswer_of_error htext] at hx; cases hx
      | ok answered' =>
          cases answered with
          | some y' =>
              rw [firstAnswer_of_some hnumber] at hy
              obtain rfl := Except.ok.inj hy
              cases answered' with
              | some x' =>
                  -- the only case in which the two orders give different values
                  rw [firstAnswer_of_some htext] at hx
                  obtain rfl := Except.ok.inj hx
                  exact plainInteger_nonneg_of_answers hv htext hnumber hread
              | none =>
                  rw [firstAnswer_of_none htext, firstAnswer_of_some hnumber] at hx
                  obtain rfl := Except.ok.inj hx
                  exact plainInteger_nonneg hread
          | none =>
              rw [firstAnswer_of_none hnumber] at hy
              cases answered' with
              | some x' =>
                  rw [firstAnswer_of_some htext] at hx hy
                  obtain rfl := Except.ok.inj hx
                  obtain rfl := Except.ok.inj hy
                  exact plainInteger_nonneg hread
              | none => rw [firstAnswer_of_none htext] at hy; cases hy

end

/-- **What reads as digits reads as no integer below zero.** -/
theorem toInteger_nonneg {v : Value} {literal : Text} {n : Nat} {i : Int} (hv : v.MethodsAgree)
    (htext : v.toText = .ok literal) (hread : Decimal.read? literal = some n)
    (hi : v.toInteger = .ok i) : 0 ≤ i := by
  obtain ⟨x, hx, rfl⟩ := exists_of_map_eq_ok htext
  obtain ⟨y, hy, rfl⟩ := exists_of_map_eq_ok hi
  by_cases hcomposite : v.isComposite = true
  · rw [simplify_of_composite hcomposite] at hx hy
    exact plainInteger_nonneg_of_firstAnswer hv hx hy hread
  · have hplain : v.isComposite = false := by simpa using hcomposite
    rw [simplify_of_plain hplain] at hx hy
    obtain rfl := Except.ok.inj hx
    obtain rfl := Except.ok.inj hy
    exact plainInteger_nonneg hread

/-! ### Values of sources -/

/-- A value of a document in one of the readings, an integer, or nothing. -/
inductive IsRead : Value → Prop where
  | missing : IsRead .missing
  | integer (i : Int) : IsRead (.integer i)
  | ofDoc (r : Reading) (d : Doc) : IsRead (.ofDoc r d)

/-- The plain reading keeps no tokens. -/
theorem find?_numberMethod_ne_token (d : Doc) :
    (ofDoc .plain d).find? numberMethod ≠ some (.method .token) := by
  intro h
  cases d with
  | null => cases h
  | bool b => cases h
  | number n => cases h
  | text t =>
      have hfind : (Value.text t).find? numberMethod = some (.method .text) := rfl
      rw [Value.ofDoc, hfind] at h
      cases h
  | array items =>
      have hfind : (Value.array (ofItems .plain items)).find? numberMethod =
          some (.method .object) := rfl
      rw [Value.ofDoc, hfind] at h
      cases h
  | object members =>
      rw [find?_ofDoc_plain] at h
      cases hlast : lastMember? numberMethod members with
      | some d =>
          rw [hlast] at h
          exact ofDoc_ne_method .plain d .token (Option.some_inj.1 h)
      | none =>
          have hfind : (Value.root .object).find? numberMethod = some (.method .object) := rfl
          rw [hlast, hfind] at h
          cases h

/-- What has the method for numbers of the tokens ends in a number, and so has the one for texts. -/
theorem owner_eq_token {d : Doc} {owner : Root}
    (htext : (ofDoc .lossless d).find? textMethod = some (.method owner))
    (hnumber : (ofDoc .lossless d).find? numberMethod = some (.method .token)) :
    owner = .token := by
  have htext' : textMethod ≠ parentKey := by decide
  have hnumber' : numberMethod ≠ parentKey := by decide
  have homits := Doc.omits_of_method htext' htext
  have homits' := Doc.omits_of_method hnumber' hnumber
  obtain ⟨e, hend⟩ := d.exists_endsIn
  cases e with
  | object members =>
      have hfind : (Value.root .object).find? numberMethod = some (.method .object) := rfl
      rw [hend.find?_root hnumber' homits', hfind] at hnumber
      cases hnumber
  | number n =>
      have hfind : (Value.token n).find? textMethod = some (.method .token) := rfl
      rw [hend.find? htext' homits, ofDoc, Reading.number, hfind] at htext
      cases htext
      rfl
  | array items =>
      have hfind : (Value.array (ofItems .lossless items)).find? numberMethod =
          some (.method .object) := rfl
      rw [hend.find? hnumber' homits', ofDoc, hfind] at hnumber
      cases hnumber
  | null | bool | text =>
      rw [hend.find? hnumber' homits', ofDoc] at hnumber
      cases hnumber

theorem IsRead.methodsAgree {v : Value} (h : v.IsRead) : v.MethodsAgree := by
  intro owner htext hnumber
  cases h with
  | missing => cases hnumber
  | integer i => cases hnumber
  | ofDoc r d =>
      cases r with
      | lossless => exact owner_eq_token htext hnumber
      | plain => exact absurd hnumber (find?_numberMethod_ne_token d)

section

variable {key : Text} (hkey : IsOrdinary key)
include hkey

/-- What is found in a value of the plain reading is such a value. -/
theorem IsOrdinary.isRead_of_find?_plain {d : Doc} {x : Value}
    (h : (Value.ofDoc .plain d).find? key = some x) : x.IsRead := by
  cases d with
  | null | bool | text | array =>
      rw [hkey.find?_eq_none] at h
      · cases h
      · nofun
      · nofun
  | number n =>
      have hnone : (Value.double n.double).find? key = none := hkey.supplied?_root .double
      rw [Value.ofDoc, Reading.number, hnone] at h
      cases h
  | object members =>
      rw [find?_ofDoc_plain, hkey.find?_root, Option.or_none] at h
      obtain ⟨d, -, rfl⟩ := Option.map_eq_some_iff.1 h
      exact .ofDoc .plain d

/-- A member of a value of a source is missing or could come from a source itself. -/
theorem IsRead.get {v : Value} (h : v.IsRead) : (v.get key).IsRead := by
  rw [hkey.get_eq]
  cases hfind : v.find? key with
  | none => exact .missing
  | some x =>
      cases h with
      | missing => cases hfind
      | integer i =>
          have hnone : (Value.integer i).find? key = none := hkey.supplied?_root .integer
          rw [hnone] at hfind
          cases hfind
      | ofDoc r d =>
          cases r with
          | lossless =>
              obtain ⟨d', rfl⟩ := hkey.exists_doc_of_find? hfind
              exact .ofDoc .lossless d'
          | plain => exact hkey.isRead_of_find?_plain hfind

end

end Value

end Json

/-! ### The reader of literals -/

namespace U64

open Json (Value)

/-- The integer that a value denotes for a reader that tests its text for digits and compares the
integer with the upper bound only. -/
def unchecked (v : Value) : Except Failure Int :=
  match v.toText with
  | .error m => .error (.misuse m)
  | .ok literal =>
      if (Decimal.read? literal).isNone then .error (.decode (.invalidLiteral literal))
      else
        match v.toInteger with
        | .error m => .error (.misuse m)
        | .ok i => if i ≤ maxU64 then .ok i else .error (.decode (.literalTooLarge literal))

/-- **The lower bound may be left out.**  For a value of a source, or a member of one, the integer
that is compared with the upper bound only is the number of 64 bits. -/
theorem map_ofTokenText {v : Value} (hv : v.IsRead) :
    (ofTokenText v).map (fun u => (u.value : Int)) = unchecked v := by
  rw [ofTokenText, unchecked]
  cases htext : v.toText with
  | error m => rfl
  | ok literal =>
      simp only
      cases hread : Decimal.read? literal with
      | none => rfl
      | some n =>
          cases hi : v.toInteger with
          | error m => rfl
          | ok i =>
              have hpos : 0 ≤ i := Json.Value.toInteger_nonneg hv.methodsAgree htext hread hi
              obtain ⟨k, rfl⟩ := Int.eq_ofNat_of_zero_le hpos
              simp only [Option.isNone_some, Bool.false_eq_true, if_false, Int.toNat_natCast,
                Int.ofNat_le]
              by_cases hle : k ≤ maxU64
              · rw [dif_pos hle, if_pos hle]
                rfl
              · rw [dif_neg hle, if_neg hle]
                rfl

end U64

end WireCodec

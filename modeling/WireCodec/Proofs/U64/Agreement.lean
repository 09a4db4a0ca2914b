import WireCodec.Proofs.Canonical
import WireCodec.Proofs.U64.Raw

/-
**The ways to read a number of 64 bits agree.**

A literal reaches the reader of literals on five ways: as a bare text, as the raw token that it is,
between quotes, as a text of a document, and as a number token.  Quotes and escapes are taken off
unit by unit and a token keeps its text, so on each way the reader is given the same units, and the
outcomes are the same, failures included.

Main results:

* `U64.decode_of_not_quoted`, `U64.decode_quoted`: a raw token without quotes at both ends, and any
  text between quotes;
* `U64.decode_encode`: the canonical JSON text is read back;
* `U64.ofValue_of_literal`: the value of a document whose literal is the text;
* `U64.readers_agree`: **all ways have the outcome of the reader of literals**.
-/

set_option relaxedAutoImplicit false
set_option autoImplicit false

namespace WireCodec

open Json (Value Doc Numeral Reading)

namespace U64

/-! ### Raw tokens -/

/-- A raw token without a quote at both ends is the literal itself. -/
theorem decode_of_not_quoted {s : Text}
    (h : ¬ ∃ content, s = Json.quote :: (content ++ [Json.quote])) : decode s = ofText s := by
  have hquoted : isQuoted s = false := by
    rw [Bool.eq_false_iff]
    exact fun hs => h (isQuoted_iff.1 hs)
  exact (Literal.bare hquoted).decode_eq

/-- Between quotes any text is the literal, whatever its units are. -/
theorem decode_quoted (s : Text) : decode (Json.quoted s) = ofText s :=
  (Literal.quoted (Json.quotes_quoted s)).decode_eq

/-- The canonical JSON text is read back. -/
theorem decode_encode (u : U64) : decode u.encode = .ok u := by
  rw [encode, toDoc, Doc.print, decode_quoted, ofText_text]

/-- The codec reads what it writes. -/
theorem codec_decode_encode (u : U64) : codec.decode (codec.encode u) = .ofExcept (.ok u) := by
  have hencode : codec.encode u = u.encode := rfl
  rw [codec_decode, hencode, decode_encode]
  rfl

/-! ### Documents -/

section

variable {s raw : Text} (reason : DecodeReason) (typeName : Text)

/-- A text or a number token is read as a value with the same literal. -/
theorem ofValue_of_literal {d : Doc} (hd : Json.WrittenSpaced Reading.lossless.admits d raw)
    (hliteral : d.literal? = some s) :
    ∃ v, readJson raw reason typeName = .ok v ∧ ofValue v = (ofText s).mapError .decode :=
  ⟨_, readJson_eq_ok_iff.2 ⟨d, hd, rfl⟩, ofValue_of_literal? hliteral⟩

/-- A number token keeps its text. -/
theorem ofValue_of_token {n : Numeral} (h : Json.Written Reading.lossless.admits (.number n) s) :
    ∃ v, readJson s reason typeName = .ok v ∧ ofValue v = (ofText s).mapError .decode := by
  have hliteral : (Doc.number n).literal? = some s := by
    cases h
    rfl
  exact ofValue_of_literal reason typeName h.spaced hliteral

/-- A text between quotes is read by the parser and by the decoder of raw tokens alike. -/
theorem ofValue_of_quotes {t : Text} (h : Json.Quotes raw t) :
    ∃ v, readJson raw reason typeName = .ok v ∧ ofValue v = (codec.decode raw).outcome := by
  obtain ⟨v, hread, hv⟩ := ofValue_of_literal reason typeName
    (Json.writtenSpaced_text_iff.2 h.spaced) (rfl : (Doc.text t).literal? = some t)
  refine ⟨v, hread, ?_⟩
  rw [hv, codec_decode, (Literal.quoted h).decode_eq]
  rfl

end

/-- **All ways have the outcome of the reader of literals.**  For a text without a quote at both
ends these are the raw token, the text between quotes, the text as a value and, if the text writes a
number, the value that the parser gives for it.  A raw text between quotes has one outcome for the
decoder and for the value that the parser gives.  Every refusal is that of a malformed number. -/
theorem readers_agree (reason : DecodeReason) (typeName : Text) :
    (∀ s : Text, (¬ ∃ content, s = Json.quote :: (content ++ [Json.quote])) →
      let outcome : Except Failure U64 := (ofText s).mapError .decode
      (codec.decode s).outcome = outcome ∧ (codec.decode (Json.quoted s)).outcome = outcome ∧
        ofValue (.text s) = outcome ∧
        ∀ n : Numeral, Json.Written Reading.lossless.admits (.number n) s →
          ∃ v, readJson s reason typeName = .ok v ∧ ofValue v = outcome) ∧
    (∀ raw t : Text, Json.Quotes raw t →
      ∃ v, readJson raw reason typeName = .ok v ∧ ofValue v = (codec.decode raw).outcome) ∧
    ∀ (s : Text) (e : DecodeError), ofText s = .error e → e.reason = .malformedNumber := by
  refine ⟨fun s hs => ⟨?_, ?_, rfl, fun n hn => ?_⟩, fun raw t h => ?_, fun s e he => ?_⟩
  · rw [codec_decode, decode_of_not_quoted hs]
    rfl
  · rw [codec_decode, decode_quoted]
    rfl
  · exact ofValue_of_token reason typeName hn
  · exact ofValue_of_quotes reason typeName h
  · exact (reason_of_ofText_eq_error he).1

/-- A token with a sign, which is no literal, and a digit that is written as an escape. -/
theorem readers_agree_signed :
    let s : Text := "-0"
    let n : Numeral := ⟨true, [Digit.zero], none, none⟩
    let raw : Text := "\"\\u0037\""
    let outcome : Except Failure U64 := .error (.decode (.invalidLiteral s))
    (¬ ∃ content, s = Json.quote :: (content ++ [Json.quote])) ∧
    ((codec.decode s).outcome = outcome ∧ (codec.decode (Json.quoted s)).outcome = outcome ∧
      ofValue (.text s) = outcome) ∧
    Json.Written Reading.lossless.admits (.number n) s ∧
    (∃ v, readJson s .malformedNumber "u64" = .ok v ∧ ofValue v = outcome) ∧
    Json.Quotes raw [0x37] ∧
    (∃ v, readJson raw .malformedNumber "u64" = .ok v ∧ ofValue v = (codec.decode raw).outcome) ∧
    ofText s = .error (.invalidLiteral s) ∧
    (DecodeError.invalidLiteral s).reason = .malformedNumber := by
  intro s n raw outcome
  obtain ⟨hliteral, hraw, hreason⟩ := readers_agree .malformedNumber "u64"
  have hs : ¬ ∃ content, s = Json.quote :: (content ++ [Json.quote]) := by
    rintro ⟨content, hcontent⟩
    have hhead : Decimal.minus = Json.quote := (List.cons.inj hcontent).1
    revert hhead
    decide
  have hrefused : ofText s = .error (.invalidLiteral s) := by decide +kernel
  have htoken : n.IsToken := ⟨.inl rfl, nofun, nofun⟩
  have hn : Json.Written Reading.lossless.admits (.number n) s := .number htoken
  have hdigit : Json.UnitForm 0x37 (Json.backslash :: Text.unit 'u' :: ("0037" : Text)) :=
    .digits (by decide)
  have hseven : Json.Quotes raw [0x37] := ⟨_, .cons hdigit .nil, by decide⟩
  obtain ⟨hbare, hquoted, hvalue, hparsed⟩ := hliteral s hs
  rw [hrefused] at hbare hquoted hvalue hparsed
  exact ⟨hs, ⟨hbare, hquoted, hvalue⟩, hn, hparsed n hn, hseven, hraw raw _ hseven, hrefused,
    hreason s _ hrefused⟩

end U64

end WireCodec

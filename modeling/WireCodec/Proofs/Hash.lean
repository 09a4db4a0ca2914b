import WireCodec.Proofs.Canonical
import WireCodec.Proofs.Json.Quoted

/-
**Hashes are passed through.**

A hash is any text, so its codec is the escaping of texts and nothing else.  All units come back,
surrogates without a partner as well, and what is read is exactly the texts between quotes.

Main results:

* `Hash.decode_encode`: the canonical text of a hash is read back;
* `Hash.decode_eq_ok_iff`, `Hash.decode_of_no_text`: texts between quotes are hashes, and anything
  else is refused;
* `Hash.codec_passesThrough`: **the codec passes every text through**.
-/

set_option relaxedAutoImplicit false
set_option autoImplicit false

namespace WireCodec

open Json (Value Doc)

namespace Hash

/-! ### What is written -/

theorem quotes_encode (h : Hash) : Json.Quotes h.encode h.text := by
  rw [encode, toDoc, Doc.print]
  exact Json.quotes_quoted h.text

/-- The canonical text of a hash is read back, whatever its units are. -/
theorem decode_encode (h : Hash) : decode h.encode = .ok h := by
  have hread : readJson h.encode .malformedObject "hash" = .ok (.ofDoc .lossless h.toDoc) :=
    readJson_print trivial
  rw [decode, hread]
  exact h.ofValue_toDoc

/-! ### What is read -/

section

variable {raw : Text}

theorem decode_of_quotes {t : Text} (h : Json.QuotesSpaced raw t) : decode raw = .ok ⟨t⟩ := by
  rw [decode, readJson_eq_text_iff.2 h]
  rfl

/-- What is no text between quotes is refused: the parser fails, or it finds another value. -/
theorem decode_of_no_text (hnone : ∀ t, ¬ Json.QuotesSpaced raw t) :
    ∃ e, decode raw = .error (.decode e) ∧ e.reason = .malformedObject ∧ e.field = none := by
  rw [decode]
  rcases readJson_cases raw .malformedObject "hash" with ⟨t, ht, -⟩ | ⟨-, hcase⟩
  · exact absurd ht (hnone t)
  · rcases hcase with ⟨fault, hread⟩ | ⟨v, hv, hread⟩
    · rw [hread]
      exact ⟨_, rfl, rfl, rfl⟩
    · rw [hread]
      refine ⟨.unexpected .hash v.kind, ?_, rfl, rfl⟩
      cases v with
      | text t => exact absurd rfl (hv t)
      | missing | null | bool | double | integer | token | array | object | root | method => rfl

/-- The hashes that are read are the texts between quotes. -/
theorem decode_eq_ok_iff {h : Hash} : decode raw = .ok h ↔ Json.QuotesSpaced raw h.text := by
  refine ⟨fun hdecode => ?_, decode_of_quotes⟩
  by_cases hquotes : ∃ t, Json.QuotesSpaced raw t
  · obtain ⟨t, ht⟩ := hquotes
    rw [decode_of_quotes ht] at hdecode
    rwa [← Except.ok.inj hdecode]
  · obtain ⟨e, he, -⟩ := decode_of_no_text (not_exists.1 hquotes)
    rw [he] at hdecode
    cases hdecode

/-- The codec logs nothing. -/
theorem codec_decode_eq_ok_iff {h : Hash} :
    codec.decode raw = .ofExcept (.ok h) ↔ decode raw = .ok h :=
  ⟨congrArg Logged.outcome, congrArg Logged.ofExcept⟩

end

/-- **The codec passes every text through.**  What it writes for a text is that text between quotes,
and reads back as the same units.  It reads the texts between quotes, with white space around them,
and what it has read it writes and reads again.  Anything else is refused as a malformed object,
without a field. -/
theorem codec_passesThrough :
    (∀ h : Hash, Json.Quotes (codec.encode h) h.text ∧
      codec.decode (codec.encode h) = .ofExcept (.ok h)) ∧
    ∀ raw : Text,
      (∀ h : Hash, codec.decode raw = .ofExcept (.ok h) ↔ Json.QuotesSpaced raw h.text) ∧
      (∀ h : Hash, codec.decode raw = .ofExcept (.ok h) →
        codec.decode (codec.encode h) = .ofExcept (.ok h)) ∧
      ((∀ t, ¬ Json.QuotesSpaced raw t) → ∃ message cause,
        (codec.decode raw).outcome.mapError Failure.report =
          .error (.mk .decoder (some "malformed_object") none (some message) cause)) := by
  have hround : ∀ h : Hash, codec.decode (codec.encode h) = .ofExcept (.ok h) := fun h =>
    codec_decode_eq_ok_iff.2 h.decode_encode
  refine ⟨fun h => ⟨h.quotes_encode, hround h⟩, fun raw => ⟨fun h => ?_, fun h _ => hround h, ?_⟩⟩
  · rw [codec_decode_eq_ok_iff, decode_eq_ok_iff]
  · intro hnone
    obtain ⟨e, hdecode, hreason, hfield⟩ := decode_of_no_text hnone
    have hreport := exists_report_of_eq_error hdecode
    rw [hreason, hfield] at hreport
    exact hreport

/-- A surrogate without a partner and an escaped quote with white space around them, and a
number. -/
theorem codec_passesThrough_surrogate :
    let spaced : Text := " \"\\ud800\\u0022\" "
    let h : Hash := ⟨[0xD800, Json.quote]⟩
    let number : Text := "12"
    (codec.decode spaced = .ofExcept (.ok h) ∧
      codec.decode (codec.encode h) = .ofExcept (.ok h)) ∧
    (∀ t, ¬ Json.QuotesSpaced number t) ∧ ∃ message cause,
      (codec.decode number).outcome.mapError Failure.report =
        .error (.mk .decoder (some "malformed_object") none (some message) cause) := by
  intro spaced h number
  obtain ⟨-, hraw⟩ := codec_passesThrough
  have hdecode : decode spaced = .ok h := by decide +kernel
  have hread := codec_decode_eq_ok_iff.2 hdecode
  have hnone : ∀ t, ¬ Json.QuotesSpaced number t := by
    intro t ht
    have hrefused : (codec.decode number).outcome.isOk = false := by decide +kernel
    rw [((hraw number).1 ⟨t⟩).2 ht] at hrefused
    cases hrefused
  exact ⟨⟨hread, (hraw spaced).2.1 h hread⟩, hnone, (hraw number).2.2 hnone⟩

end Hash

end WireCodec

import WireCodec.Proofs.Json.Quoted
import WireCodec.Proofs.U64

/-
**Raw tokens that denote numbers of 64 bits.**

A raw token is read without parsing it, unless it begins and ends with a quote.  The two units
decide rightly: digits never begin with a quote, and between two quotes there is one text or no
document at all, so nothing else than a text is ever parsed.

Main definitions:

* `U64.Literal`: what stands for the literal in a raw token;
* `U64.Denotes`: a raw token is digits of a number, bare or as a text between quotes.

Main results:

* `U64.Literal.decode_eq`, `U64.decode_of_no_literal`: the literal decides, and only two quotes
  without a text between them have none;
* `U64.decode_language`: **a raw token is decoded exactly if it denotes a number**, and anything
  else is refused as a malformed number.
-/

set_option relaxedAutoImplicit false
set_option autoImplicit false

namespace WireCodec

open Json (Value Doc)

namespace U64

/-! ### Literals -/

/-- A literal is read exactly if it is digits of a number of 64 bits. -/
theorem ofText_eq_ok_iff {t : Text} {u : U64} :
    ofText t = .ok u ↔ ∃ ds, ds ≠ [] ∧ t = Decimal.spell ds ∧ Decimal.number ds = u.value := by
  constructor
  · intro h
    rw [ofText] at h
    split at h
    · cases h
    · next n hread =>
        obtain ⟨ds, hne, ht, hn⟩ := Decimal.read?_eq_some_iff.1 hread
        split at h
        · exact ⟨ds, hne, ht, by rw [hn, ← Except.ok.inj h]⟩
        · cases h
  · rintro ⟨ds, hne, rfl, hn⟩
    have hle : Decimal.number ds ≤ maxU64 := by
      rw [hn]
      exact u.value_le
    obtain ⟨n, hvalue⟩ := u
    obtain rfl : Decimal.number ds = n := hn
    exact ofText_spell hne hle

theorem reason_of_ofText_eq_error {t : Text} {e : DecodeError} (h : ofText t = .error e) :
    e.reason = .malformedNumber ∧ e.field = none := by
  rw [ofText] at h
  split at h
  · rw [← Except.error.inj h]
    exact ⟨rfl, rfl⟩
  · split at h
    · cases h
    · rw [← Except.error.inj h]
      exact ⟨rfl, rfl⟩

/-! ### Two quotes -/

theorem isQuoted_iff {raw : Text} :
    isQuoted raw = true ↔ ∃ content, raw = Json.quote :: (content ++ [Json.quote]) := by
  simp only [isQuoted, Bool.and_eq_true, decide_eq_true_eq, beq_iff_eq]
  constructor
  · rintro ⟨⟨hlen, hhead⟩, hlast⟩
    obtain ⟨rest, rfl⟩ := List.head?_eq_some_iff.1 hhead
    -- the last unit is not the first one, for there are two
    obtain ⟨content, rfl⟩ : ∃ content, rest = content ++ [Json.quote] := by
      cases rest with
      | nil => simp at hlen
      | cons u rest =>
          rw [List.getLast?_cons_cons] at hlast
          exact List.getLast?_eq_some_iff.1 hlast
    exact ⟨content, rfl⟩
  · rintro ⟨content, rfl⟩
    simp [List.getLast?_cons]

theorem isQuoted_of_quotes {raw t : Text} (h : Json.Quotes raw t) : isQuoted raw = true := by
  obtain ⟨content, -, rfl⟩ := h
  exact isQuoted_iff.2 ⟨content, rfl⟩

/-- Digits do not begin with a quote. -/
theorem isQuoted_spell (ds : List Digit) : isQuoted (Decimal.spell ds) = false := by
  have hdigit : ∀ d : Digit, d.unit ≠ Json.quote := by decide
  rw [Bool.eq_false_iff]
  intro h
  obtain ⟨content, hcontent⟩ := isQuoted_iff.1 h
  cases ds with
  | nil => cases hcontent
  | cons d ds => exact hdigit d (List.cons.inj hcontent).1

/-! ### The literal of a raw token -/

/-- The literal of a raw token: the content of a text between quotes, and a token that does not
begin and end with a quote as it is. -/
inductive Literal : Text → Text → Prop where
  | quoted {raw t : Text} (h : Json.Quotes raw t) : Literal raw t
  | bare {raw : Text} (h : isQuoted raw = false) : Literal raw raw

section

variable {raw : Text}

/-- Two quotes at the ends are those of one text, or there is no document. -/
theorem readJson_of_isQuoted (h : isQuoted raw = true) (reason : DecodeReason) (typeName : Text) :
    (∃ t, Json.Quotes raw t ∧ readJson raw reason typeName = .ok (.text t)) ∨
      ∃ fault, readJson raw reason typeName = .error (.invalidJson reason typeName raw fault) := by
  have hends := h
  simp only [isQuoted, Bool.and_eq_true, beq_iff_eq] at hends
  obtain ⟨⟨-, hhead⟩, hlast⟩ := hends
  rcases readJson_of_head_quote reason typeName hhead with hfault | ⟨t, hread⟩
  · exact .inr hfault
  · exact .inl ⟨t, (readJson_eq_text_iff.1 hread).quotes hhead hlast, hread⟩

/-- The literal decides. -/
theorem Literal.decode_eq {t : Text} (h : Literal raw t) : decode raw = ofText t := by
  cases h with
  | quoted h => rw [decode, if_pos (isQuoted_of_quotes h), readJson_eq_text_iff.2 h.spaced]
  | bare h => rw [decode, if_neg (by simp [h])]

/-- Two quotes without a text between them are refused by the parser. -/
theorem decode_of_no_literal (hnone : ∀ t, ¬ Literal raw t) :
    ∃ fault, decode raw = .error (.invalidJson .malformedNumber "u64" raw fault) := by
  cases hquoted : isQuoted raw with
  | false => exact absurd (.bare hquoted) (hnone raw)
  | true =>
      rcases readJson_of_isQuoted hquoted .malformedNumber "u64" with ⟨t, ht, -⟩ | ⟨fault, hread⟩
      · exact absurd (.quoted ht) (hnone t)
      · refine ⟨fault, ?_⟩
        rw [decode, if_pos hquoted, hread]

/-- Every refusal is that of a malformed number. -/
theorem reason_of_decode_eq_error {e : DecodeError} (h : decode raw = .error e) :
    e.reason = .malformedNumber ∧ e.field = none := by
  by_cases hliteral : ∃ t, Literal raw t
  · obtain ⟨t, ht⟩ := hliteral
    rw [ht.decode_eq] at h
    exact reason_of_ofText_eq_error h
  · obtain ⟨fault, hdecode⟩ := decode_of_no_literal (not_exists.1 hliteral)
    rw [hdecode] at h
    rw [← Except.error.inj h]
    exact ⟨rfl, rfl⟩

/-! ### The language -/

/-- The raw token is one or more digits that denote a number of 64 bits, bare or as a text between
quotes. -/
inductive Denotes : Text → Nat → Prop where
  | bare {ds : List Digit} (hne : ds ≠ []) (hle : Decimal.number ds ≤ maxU64) :
      Denotes (Decimal.spell ds) (Decimal.number ds)
  | quoted {raw : Text} {ds : List Digit} (hraw : Json.Quotes raw (Decimal.spell ds))
      (hne : ds ≠ []) (hle : Decimal.number ds ≤ maxU64) : Denotes raw (Decimal.number ds)

/-- A raw token denotes a number if its literal is digits of the number. -/
theorem denotes_iff {n : Nat} :
    Denotes raw n ↔
      ∃ ds, Literal raw (Decimal.spell ds) ∧ ds ≠ [] ∧ Decimal.number ds = n ∧ n ≤ maxU64 := by
  constructor
  · intro h
    cases h with
    | bare hne hle => exact ⟨_, .bare (isQuoted_spell _), hne, rfl, hle⟩
    | quoted hraw hne hle => exact ⟨_, .quoted hraw, hne, rfl, hle⟩
  · rintro ⟨ds, hliteral, hne, rfl, hle⟩
    generalize ht : Decimal.spell ds = t at hliteral
    subst ht
    cases hliteral with
    | quoted hraw => exact .quoted hraw hne hle
    | bare => exact .bare hne hle

/-- Decoding succeeds exactly on the raw tokens that denote a number, with this number. -/
theorem decode_eq_ok_iff {u : U64} : decode raw = .ok u ↔ Denotes raw u.value := by
  constructor
  · intro h
    by_cases hliteral : ∃ t, Literal raw t
    · obtain ⟨t, ht⟩ := hliteral
      rw [ht.decode_eq] at h
      obtain ⟨ds, hne, rfl, hn⟩ := ofText_eq_ok_iff.1 h
      exact denotes_iff.2 ⟨ds, ht, hne, hn, u.value_le⟩
    · obtain ⟨fault, hdecode⟩ := decode_of_no_literal (not_exists.1 hliteral)
      rw [hdecode] at h
      cases h
  · intro h
    obtain ⟨ds, hliteral, hne, hn, -⟩ := denotes_iff.1 h
    rw [hliteral.decode_eq]
    exact ofText_eq_ok_iff.2 ⟨ds, hne, rfl, hn⟩

end

/-- The codec logs nothing. -/
theorem codec_decode (raw : Text) :
    codec.decode raw = .ofExcept ((decode raw).mapError .decode) := rfl

/-- **A raw token is decoded exactly if it denotes a number, and as this number.**  Anything else is
refused as a malformed number, without a field.  Between two quotes the parser finds a text or no
document, so no other value is ever looked at. -/
theorem decode_language (raw : Text) :
    (∀ n, (∃ u : U64, u.value = n ∧ codec.decode raw = .ofExcept (.ok u)) ↔ Denotes raw n) ∧
    ((∀ n, ¬ Denotes raw n) → ∃ message cause,
      (codec.decode raw).outcome.mapError Failure.report =
        .error (.mk .decoder (some "malformed_number") none (some message) cause)) ∧
    (raw.head? = some Json.quote → raw.getLast? = some Json.quote →
      ∀ (reason : DecodeReason) (typeName : Text),
        (∃ fault, readJson raw reason typeName = .error (.invalidJson reason typeName raw fault)) ∨
        ∃ t, readJson raw reason typeName = .ok (.text t)) := by
  rw [codec_decode]
  refine ⟨fun n => ⟨?_, ?_⟩, fun hnone => ?_, fun hhead _ reason typeName => ?_⟩
  · rintro ⟨u, rfl, h⟩
    exact decode_eq_ok_iff.1 (mapError_eq_ok_iff.1 (congrArg Logged.outcome h))
  · intro h
    obtain ⟨ds, -, -, -, hle⟩ := denotes_iff.1 h
    have hdecode : decode raw = .ok ⟨n, hle⟩ := decode_eq_ok_iff.2 h
    exact ⟨⟨n, hle⟩, rfl, by rw [hdecode]; rfl⟩
  · cases hdecode : decode raw with
    | ok u => exact absurd (decode_eq_ok_iff.1 hdecode) (hnone u.value)
    | error e =>
        obtain ⟨hreason, hfield⟩ := reason_of_decode_eq_error hdecode
        have hfails : (Except.error e : Except DecodeError U64).mapError Failure.decode =
            .error (.decode e) := rfl
        have hreport := exists_report_of_eq_error hfails
        rw [hreason, hfield] at hreport
        exact hreport
  · exact readJson_of_head_quote reason typeName hhead

/-- Two texts side by side begin and end with a quote and denote nothing, although both are
digits. -/
theorem decode_language_adjacent :
    let raw : Text := "\"1\"\"2\""
    (∀ n, ¬ Denotes raw n) ∧
    (∃ message cause, (codec.decode raw).outcome.mapError Failure.report =
      .error (.mk .decoder (some "malformed_number") none (some message) cause)) ∧
    raw.head? = some Json.quote ∧ raw.getLast? = some Json.quote ∧
    ∀ (reason : DecodeReason) (typeName : Text),
      (∃ fault, readJson raw reason typeName = .error (.invalidJson reason typeName raw fault)) ∨
      ∃ t, readJson raw reason typeName = .ok (.text t) := by
  intro raw
  have hnone : ∀ n, ¬ Denotes raw n := by
    intro n h
    obtain ⟨u, -, hdecode⟩ := ((decode_language raw).1 n).2 h
    have hrefused : (codec.decode raw).outcome.isOk = false := by decide +kernel
    rw [hdecode] at hrefused
    cases hrefused
  obtain ⟨-, hreport, htext⟩ := decode_language raw
  exact ⟨hnone, hreport hnone, rfl, rfl, htext rfl rfl⟩

end U64

end WireCodec

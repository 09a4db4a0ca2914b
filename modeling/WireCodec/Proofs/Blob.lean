import WireCodec.Blob
import WireCodec.Proofs.Base64
import WireCodec.Proofs.Hex

/-
**The texts that are read as bytes.**

The three rules of `WireCodec.Blob` are put together into one language: a text with the mark in
front is base sixteen and nothing else; another text is base sixteen if it does not end in padding
and can be read so; any other text is base sixty-four once its line breaks are gone.

Main definitions:

* `Blob.Denotes`: a text denotes some bytes.

Main results:

* `Blob.ofText_of_marked`, `Blob.ofText_of_padded`, `Blob.ofText_of_writes`,
  `Blob.ofText_of_hex_error`: the three rules;
* `Blob.outcome_ofText_marked`, `Blob.outcome_ofText_base64`: what they decide;
* `Blob.ofText_language`: **reading succeeds exactly on the texts that denote bytes, with these**,
  and any other text is refused with a cause that tells which base was required.
-/

set_option relaxedAutoImplicit false
set_option autoImplicit false

namespace WireCodec

namespace Blob

/-! ### The language -/

/-- The text does not carry the mark, and it ends in padding or is no sequence of digit pairs. -/
structure NeedsBase64 (t : Text) : Prop where
  not_marked : ¬ Base16.mark <+: t
  not_digits : t.getLast? = some Base64.pad ∨ t = [] ∨ t.length % 2 = 1 ∨
    ∃ u ∈ t, u ∉ Base16.digitUnits

/-- The two rules for texts without the mark exclude each other. -/
theorem NeedsBase64.not_bare {t : Text} (hneeds : NeedsBase64 t)
    (hpad : t.getLast? ≠ some Base64.pad) (hne : t ≠ []) {bytes : Bytes} :
    ¬ Base16.Writes t bytes := by
  intro hw
  obtain ⟨hlen, hdigits⟩ := Base16.exists_writes_iff.1 ⟨bytes, hw⟩
  rcases hneeds.not_digits with hlast | hnil | hodd | ⟨u, hu, hdigit⟩
  · exact hpad hlast
  · exact hne hnil
  · omega
  · exact hdigit (hdigits u hu)

/-- Without the mark, a text is a sequence of digit pairs or has to be base sixty-four. -/
theorem bare_or_needsBase64 {t : Text} (hmark : ¬ Base16.mark <+: t) :
    (t.getLast? ≠ some Base64.pad ∧ t ≠ [] ∧ ∃ bytes, Base16.Writes t bytes) ∨ NeedsBase64 t := by
  by_cases hpad : t.getLast? = some Base64.pad
  · exact .inr ⟨hmark, .inl hpad⟩
  · by_cases hne : t = []
    · exact .inr ⟨hmark, .inr (.inl hne)⟩
    · by_cases hodd : t.length % 2 = 1
      · exact .inr ⟨hmark, .inr (.inr (.inl hodd))⟩
      · by_cases hdigits : ∀ u ∈ t, u ∈ Base16.digitUnits
        · exact .inl ⟨hpad, hne, Base16.exists_writes_iff.2 ⟨by omega, hdigits⟩⟩
        · exact .inr ⟨hmark, .inr (.inr (.inr (by simpa using hdigits)))⟩

/-- The bytes that a text denotes. -/
inductive Denotes : Text → Bytes → Prop where
  /-- With the mark in front the text is base sixteen, perhaps without any digit. -/
  | marked {digits : Text} {bytes : Bytes} (h : Base16.Writes digits bytes) :
      Denotes (Base16.mark ++ digits) bytes
  /-- Without the mark there is at least one pair of digits. -/
  | bare {t : Text} {bytes : Bytes} (hmark : ¬ Base16.mark <+: t)
      (hpad : t.getLast? ≠ some Base64.pad) (hne : t ≠ []) (h : Base16.Writes t bytes) :
      Denotes t bytes
  /-- In every other case the text is base sixty-four without its line breaks. -/
  | base64 {t : Text} {bytes : Bytes} (hneeds : NeedsBase64 t) (hne : withoutBreaks t ≠ [])
      (h : Base64.Writes (withoutBreaks t) bytes) :
      Denotes t bytes

section Cases

variable {t : Text} {bytes : Bytes}

theorem denotes_mark_append_iff {digits : Text} :
    Denotes (Base16.mark ++ digits) bytes ↔ Base16.Writes digits bytes := by
  constructor
  · intro h
    generalize ht : Base16.mark ++ digits = t at h
    cases h with
    | marked h => rwa [List.append_cancel_left ht]
    | bare hmark => exact absurd ⟨digits, ht⟩ hmark
    | base64 hneeds => exact absurd ⟨digits, ht⟩ hneeds.not_marked
  · exact .marked

theorem denotes_iff_of_bare (hmark : ¬ Base16.mark <+: t) (hpad : t.getLast? ≠ some Base64.pad)
    (hne : t ≠ []) (hbare : ∃ bytes, Base16.Writes t bytes) :
    Denotes t bytes ↔ Base16.Writes t bytes := by
  constructor
  · intro h
    cases h with
    | @marked digits _ h => exact absurd ⟨digits, rfl⟩ hmark
    | bare _ _ _ h => exact h
    | base64 hneeds =>
        obtain ⟨bytes', hw⟩ := hbare
        exact absurd hw (hneeds.not_bare hpad hne)
  · exact .bare hmark hpad hne

theorem denotes_iff_of_needsBase64 (hneeds : NeedsBase64 t) :
    Denotes t bytes ↔ withoutBreaks t ≠ [] ∧ Base64.Writes (withoutBreaks t) bytes := by
  constructor
  · intro h
    cases h with
    | @marked digits _ h => exact absurd ⟨digits, rfl⟩ hneeds.not_marked
    | bare _ hpad hne h => exact absurd h (hneeds.not_bare hpad hne)
    | base64 _ hne h => exact ⟨hne, h⟩
  · rintro ⟨hne, h⟩
    exact .base64 hneeds hne h

end Cases

/-! ### The two readers -/

theorem ofBase16_eq_ok_iff {digits : Text} {b : Blob} :
    ofBase16 (Base16.mark ++ digits) = .ok b ↔ Base16.Writes digits b.bytes := by
  have hok : ∀ h : Hex, Hex.ofText (Base16.mark ++ digits) = .ok h ↔
      Base16.Writes digits h.bytes := by
    intro h
    rw [Hex.ofText_eq_ok_iff, Base16.unmarked_mark_append]
    exact and_iff_right (by simp [Base16.mark, Text.ofString, Text.ofChar])
  rw [ofBase16]
  cases htext : Hex.ofText (Base16.mark ++ digits) with
  | error e =>
      refine ⟨fun h => by simp [malformed] at h, fun h => ?_⟩
      rw [(hok ⟨b.bytes⟩).2 h] at htext
      simp at htext
  | ok h =>
      have hw := (hok h).1 htext
      constructor
      · intro hb
        rw [← Except.ok.inj hb]
        exact hw
      · intro hb
        rw [(hok ⟨b.bytes⟩).2 hb] at htext
        rw [← Except.ok.inj htext]

theorem ofBase64_eq_ok_iff {t : Text} {b : Blob} :
    ofBase64 t = .ok b ↔ withoutBreaks t ≠ [] ∧ Base64.Writes (withoutBreaks t) b.bytes := by
  obtain ⟨bs⟩ := b
  rw [ofBase64]
  by_cases hne : withoutBreaks t = []
  · simp [hne, malformed]
  · simp only [hne, if_false, not_false_eq_true, true_and, ← Base64.decodeLenient_eq_ok_iff,
      Base64.decode_clearSpareBits, ne_eq]
    cases Base64.decodeLenient (withoutBreaks t) with
    | error fault => simp [malformed]
    | ok bytes => simp

/-- The reader of base sixteen passes on why `Hex.ofText` fails. -/
theorem ofBase16_eq_error {t : Text} {e : Failure} (h : ofBase16 t = .error e) :
    ∃ cause, Hex.ofText t = .error cause ∧ e = .decode (.malformedBytes t (.hex cause)) := by
  rw [ofBase16] at h
  split at h
  · simp at h
  · next cause hcause => exact ⟨cause, hcause, (Except.error.inj h).symm⟩

/-- The reader of base sixty-four fails with an error that has no code of its own. -/
theorem ofBase64_eq_error {t : Text} {e : Failure} (h : ofBase64 t = .error e) :
    ∃ fault message, e = .decode (.malformedBytes t fault) ∧
      Report.ofBytesFault fault = Report.ofMessage message := by
  rw [ofBase64] at h
  split at h
  · exact ⟨.noLetters, _, (Except.error.inj h).symm, rfl⟩
  · split at h
    · simp at h
    · next fault _ => exact ⟨.base64 fault, _, (Except.error.inj h).symm, rfl⟩

/-! ### The rules -/

theorem ofText_of_marked {t : Text} (h : Base16.mark <+: t) :
    ofText t = .ofExcept (ofBase16 t) := by
  obtain ⟨digits, rfl⟩ := h
  rw [ofText, if_pos (by rw [Text.after?_eq_some.2 rfl]; rfl)]

theorem ofText_of_padded {t : Text} (hmark : ¬ Base16.mark <+: t)
    (hpad : t.getLast? = some Base64.pad) : ofText t = .ofExcept (ofBase64 t) := by
  rw [ofText, if_neg (by simp [Base16.after?_mark_eq_none hmark]), if_pos hpad]

/-- A text that tells its base at neither end and is not base sixteen is logged as such and tried
in base sixty-four. -/
theorem ofText_of_hex_error {t : Text} (hmark : ¬ Base16.mark <+: t)
    (hpad : t.getLast? ≠ some Base64.pad) {e : Hex.Error} (h : Hex.ofText t = .error e) :
    ofText t = ⟨ofBase64 t, [⟨t.length, e⟩]⟩ := by
  rw [ofText, if_neg (by simp [Base16.after?_mark_eq_none hmark]), if_neg hpad, h]
  rfl

/-- Digit pairs are neither marked nor padded, and nothing is logged about them. -/
theorem ofText_of_writes {t : Text} {bytes : Bytes} (hne : t ≠ []) (h : Base16.Writes t bytes) :
    ofText t = .ofExcept (.ok ⟨bytes⟩) := by
  have hdigits := (Base16.exists_writes_iff.1 ⟨bytes, h⟩).2
  have hmark := Base16.after?_mark_eq_none (Base16.not_marked_of_digits hdigits)
  have hpad : t.getLast? ≠ some Base64.pad := by
    intro hlast
    have hdigit := hdigits _ (List.mem_of_getLast? hlast)
    revert hdigit
    decide
  rw [ofText, if_neg (by simp [hmark]), if_neg hpad, Hex.ofText_of_writes hne h]

theorem outcome_ofText_marked {t : Text} (h : Base16.mark <+: t) :
    (ofText t).outcome = ofBase16 t := by
  rw [ofText_of_marked h]
  rfl

theorem outcome_ofText_base64 {t : Text} (hneeds : NeedsBase64 t) :
    (ofText t).outcome = ofBase64 t := by
  by_cases hpad : t.getLast? = some Base64.pad
  · rw [ofText_of_padded hneeds.not_marked hpad]
    rfl
  · cases hhex : Hex.ofText t with
    | error e => rw [ofText_of_hex_error hneeds.not_marked hpad hhex]
    | ok h =>
        obtain ⟨hne, hw⟩ := Hex.ofText_eq_ok_iff.1 hhex
        rw [Base16.unmarked_of_not_marked hneeds.not_marked] at hw
        exact absurd hw (hneeds.not_bare hpad hne)

/-- Reading succeeds exactly on the texts that denote bytes, with these. -/
theorem outcome_ofText_eq_ok_iff {t : Text} {b : Blob} :
    (ofText t).outcome = .ok b ↔ Denotes t b.bytes := by
  by_cases hmark : Base16.mark <+: t
  · rw [outcome_ofText_marked hmark]
    obtain ⟨digits, rfl⟩ := hmark
    rw [ofBase16_eq_ok_iff, denotes_mark_append_iff]
  · rcases bare_or_needsBase64 hmark with ⟨hpad, hne, bytes, hw⟩ | hneeds
    · rw [ofText_of_writes hne hw, denotes_iff_of_bare hmark hpad hne ⟨bytes, hw⟩]
      constructor
      · intro h
        rw [← Except.ok.inj h]
        exact hw
      · intro hw'
        rw [Base16.Writes.unique hw hw']
        rfl
    · rw [outcome_ofText_base64 hneeds, ofBase64_eq_ok_iff, denotes_iff_of_needsBase64 hneeds]

/-- **Reading succeeds exactly on the texts that denote bytes, with these.**  Any other text is
refused as malformed, and the failure underneath is that of the reader of base sixteen if the text
carries the mark, and one without a code if it does not. -/
theorem ofText_language (t : Text) :
    (∀ b : Blob, (ofText t).outcome = .ok b ↔ Denotes t b.bytes) ∧
    ((∀ bytes, ¬ Denotes t bytes) → ∃ cause : Report,
      (ofText t).outcome.mapError Failure.report =
        .error (.mk .decoder (some "malformed_bytes") none
          (some (Text.concat ["\"", t, "\" is neither valid hex nor valid base64"])) (some cause)) ∧
      (Base16.mark <+: t → ∃ e, Hex.ofText t = .error e ∧ cause = Report.ofHexError e) ∧
      (¬ Base16.mark <+: t → ∃ message, cause = Report.ofMessage message)) := by
  refine ⟨fun b => outcome_ofText_eq_ok_iff, fun hnone => ?_⟩
  -- the mark decides which of the two readers refuses the text
  by_cases hmark : Base16.mark <+: t
  · cases hout : ofBase16 t with
    | ok b =>
        rw [← outcome_ofText_marked hmark] at hout
        exact absurd (outcome_ofText_eq_ok_iff.1 hout) (hnone b.bytes)
    | error e =>
        obtain ⟨cause, hcause, rfl⟩ := ofBase16_eq_error hout
        refine ⟨Report.ofHexError cause, ?_, fun _ => ⟨cause, hcause, rfl⟩, fun h => absurd hmark h⟩
        rw [outcome_ofText_marked hmark, hout]
        rfl
  · rcases bare_or_needsBase64 hmark with ⟨hpad, hne, bytes, hw⟩ | hneeds
    · exact absurd (.bare hmark hpad hne hw) (hnone bytes)
    · cases hout : ofBase64 t with
      | ok b =>
          rw [← outcome_ofText_base64 hneeds] at hout
          exact absurd (outcome_ofText_eq_ok_iff.1 hout) (hnone b.bytes)
      | error e =>
          obtain ⟨fault, message, rfl, hfault⟩ := ofBase64_eq_error hout
          refine ⟨Report.ofMessage message, ?_, fun h => absurd h hmark, fun _ => ⟨message, rfl⟩⟩
          rw [outcome_ofText_base64 hneeds, hout, ← hfault]
          rfl

/-- With the mark in front, the text of a byte in base sixty-four is refused. -/
theorem ofText_language_marked :
    let t : Text := "0xEg=="
    (∀ bytes, ¬ Denotes t bytes) ∧ ∃ cause : Report,
      (ofText t).outcome.mapError Failure.report =
        .error (.mk .decoder (some "malformed_bytes") none
          (some (Text.concat ["\"", t, "\" is neither valid hex nor valid base64"])) (some cause)) ∧
      (Base16.mark <+: t → ∃ e, Hex.ofText t = .error e ∧ cause = Report.ofHexError e) ∧
      (¬ Base16.mark <+: t → ∃ message, cause = Report.ofMessage message) := by
  intro t
  have hnone : ∀ bytes, ¬ Denotes t bytes := by
    intro bytes hdenotes
    have hok : (ofText t).outcome = .ok ⟨bytes⟩ := outcome_ofText_eq_ok_iff.2 hdenotes
    have herror : (ofText t).outcome.isOk = false := by decide +kernel
    rw [hok] at herror
    cases herror
  exact ⟨hnone, (ofText_language t).2 hnone⟩

end Blob

end WireCodec

import WireCodec.Proofs.Address.Texts
import WireCodec.Proofs.Blob
import WireCodec.Proofs.Canonical

/-
**Addresses and sequences of bytes in each other's readers.**

Bytes are written with two digits each, and the relaxed reader of addresses fills up digits in
front.  An even number of digits is filled up by whole bytes, so the address has the bytes after
zero bytes.  The readers of bytes do not fill up anything: they take the long text of an address,
and the single digit of a short one is no pair.

Main definitions:

* `Address.filledUp`: bytes with zero bytes in front, up to 32;
* `Address.TextVerdict`, `Address.BytesVerdict`: what is said about bytes as a text and as they are.

Main results:

* `Address.padded_encode`: filling up digits is filling up bytes;
* `Address.textVerdict`, `Address.bytesVerdict`: the verdicts on all bytes;
* `Address.ofText_longDigits`, `Address.outcome_ofText_special`: the readers of bytes take the long
  text, and refuse the short one;
* `Address.bytes_convert`: **bytes and addresses convert consistently**.
-/

set_option relaxedAutoImplicit false
set_option autoImplicit false

namespace WireCodec

/-! ### Zero bytes -/

theorem Base16.encode_append (a b : Bytes) : encode (a ++ b) = encode a ++ encode b :=
  List.flatMap_append

/-- A zero byte is two zeros. -/
theorem Base16.encode_zeros (count : Nat) :
    encode (List.replicate count 0) = List.replicate (2 * count) (Text.unit '0') := by
  induction count with
  | zero => rfl
  | succ count ih =>
      have hpair : pair 0 = List.replicate 2 (Text.unit '0') := by decide
      rw [encode] at ih
      rw [encode, List.replicate_succ, List.flatMap_cons, ih, hpair,
        List.replicate_append_replicate]
      congr 1
      omega

namespace Address

/-- Bytes with zero bytes in front, up to the number of bytes of an address. -/
def filledUp (bytes : Bytes) : Bytes := List.replicate (32 - bytes.length) 0 ++ bytes

/-- Filling up the digits is filling up the bytes. -/
theorem padded_encode (bytes : Bytes) :
    padded (Base16.encode bytes) = Base16.encode (filledUp bytes) := by
  have hcount : longLength - 2 * bytes.length = 2 * (32 - bytes.length) := by
    rw [longLength]
    omega
  rw [padded, Base16.length_encode, hcount, filledUp, Base16.encode_append, Base16.encode_zeros]

theorem length_filledUp {bytes : Bytes} (h : bytes.length ≤ 32) : (filledUp bytes).length = 32 := by
  rw [filledUp, List.length_append, List.length_replicate]
  omega

theorem filledUp_eq_self {bytes : Bytes} (h : bytes.length = 32) : filledUp bytes = bytes := by
  rw [filledUp, h]
  rfl

/-! ### Bytes as an address -/

/-- What is said about the text of bytes: the address of the bytes filled up, or why they are too
few or too many. -/
inductive TextVerdict (bytes : Bytes) : Except String Address → Prop where
  | tooShort (hlen : bytes.length = 0) : TextVerdict bytes (.error "too_short")
  | tooLong (hlen : 32 < bytes.length) : TextVerdict bytes (.error "too_long")
  | address {a : Address} (hpos : 1 ≤ bytes.length) (hle : bytes.length ≤ 32)
      (hbytes : a.bytes = filledUp bytes) : TextVerdict bytes (.ok a)

/-- What is said about bytes that are given as they are. -/
inductive BytesVerdict (bytes : Bytes) : Except String Address → Prop where
  | wrongSize (hlen : bytes.length ≠ 32) : BytesVerdict bytes (.error "incorrect_number_of_bytes")
  | address {a : Address} (hlen : bytes.length = 32) (hbytes : a.bytes = bytes) :
      BytesVerdict bytes (.ok a)

theorem textVerdict (b : Blob) : TextVerdict b.bytes ((relaxed b.text).mapError Error.reason) := by
  have hdigits : Base16.unmarked b.text = Base16.encode b.bytes := Base16.unmarked_mark_append _
  rw [relaxed, hdigits, Base16.length_encode]
  by_cases hzero : b.bytes.length = 0
  · rw [if_pos (by omega)]
    exact .tooShort hzero
  rw [if_neg (by omega)]
  by_cases hle : b.bytes.length ≤ 32
  · have hfit := length_filledUp hle
    rw [if_neg (by rw [longLength]; omega), padded_encode, Base16.decode_encode]
    simp only [ofBytes, dif_pos hfit]
    exact .address (by omega) hle rfl
  · rw [if_pos (by rw [longLength]; omega)]
    exact .tooLong (by omega)

theorem bytesVerdict (bytes : Bytes) :
    BytesVerdict bytes ((ofInput (.bytes bytes)).mapError Error.reason) := by
  rw [ofInput, ofBytes]
  split
  · next hlen => exact .address hlen rfl
  · next hlen => exact .wrongSize hlen

theorem TextVerdict.eq_ok_iff {bytes : Bytes} {x : Except Error Address}
    (h : TextVerdict bytes (x.mapError Error.reason)) {a : Address} :
    x = .ok a ↔ (1 ≤ bytes.length ∧ bytes.length ≤ 32) ∧ a.bytes = filledUp bytes := by
  rw [← mapError_eq_ok_iff (f := Error.reason)]
  generalize x.mapError Error.reason = outcome at h
  cases h with
  | tooShort hlen => exact iff_of_false nofun fun h => by omega
  | tooLong hlen => exact iff_of_false nofun fun h => by omega
  | address hpos hle hbytes =>
      rw [Except.ok.injEq, Address.ext_iff, hbytes, eq_comm]
      exact (and_iff_right ⟨hpos, hle⟩).symm

theorem ofBytes_eq_ok_iff {bytes : Bytes} {a : Address} :
    ofBytes bytes = .ok a ↔ a.bytes = bytes := by
  rw [ofBytes]
  split
  · rw [Except.ok.injEq, Address.ext_iff, eq_comm]
  · next hlen => exact iff_of_false nofun fun h => hlen (h ▸ a.length_bytes)

/-- Bytes are taken as they are and as their text if there are 32 of them, and then alike. -/
theorem both_eq_ok_iff {b : Blob} {a a' : Address} :
    ofInput (.bytes b.bytes) = .ok a ∧ ofInput (.text b.text) = .ok a' ↔
      a.bytes = b.bytes ∧ a' = a := by
  rw [ofInput, ofInput, ofBytes_eq_ok_iff, (textVerdict b).eq_ok_iff]
  constructor
  · rintro ⟨hbytes, -, hfilled⟩
    have hlen : b.bytes.length = 32 := hbytes ▸ a.length_bytes
    rw [filledUp_eq_self hlen, ← hbytes] at hfilled
    exact ⟨hbytes, Address.ext hfilled⟩
  · rintro ⟨hbytes, rfl⟩
    have hlen : b.bytes.length = 32 := hbytes ▸ a'.length_bytes
    rw [filledUp_eq_self hlen]
    exact ⟨hbytes, ⟨by omega, by omega⟩, hbytes⟩

/-! ### An address as bytes -/

/-- The long text is digit pairs, with and without the mark. -/
theorem ofText_longDigits (a : Address) :
    ∀ t ∈ [a.longText, Base16.encode a.bytes],
      Hex.ofText t = .ok ⟨a.bytes⟩ ∧ Blob.ofText t = .ofExcept (.ok ⟨a.bytes⟩) := by
  have hne : Base16.encode a.bytes ≠ [] := by
    intro hnil
    have hlen := a.length_digits
    rw [hnil] at hlen
    cases hlen
  have hwrites := Base16.writes_encode a.bytes
  simp only [List.forall_mem_cons]
  exact ⟨⟨Hex.ofText_text ⟨a.bytes⟩, Blob.ofText_text ⟨a.bytes⟩⟩,
    ⟨Hex.ofText_of_writes hne hwrites, Blob.ofText_of_writes hne hwrites⟩, List.forall_mem_nil _⟩

/-- A single digit with the mark is no pair, and the mark leaves nothing else to try. -/
theorem outcome_ofText_special {a : Address} (h : a.isSpecial = true) :
    (Blob.ofText a.text).outcome = Blob.malformed a.text (.hex .oddLength) := by
  obtain ⟨d, hd⟩ := isSpecial_iff.1 h
  have hmark : Base16.mark <+: a.text := List.prefix_append _ _
  have hne : a.text ≠ [] := by
    intro hnil
    have hlen := a.length_text
    rw [hnil, if_pos h] at hlen
    cases hlen
  have hodd : Hex.ofText a.text = .error .oddLength := by
    rw [Hex.ofText, if_neg hne, text, Base16.unmarked_mark_append, bareText_of_special hd]
    rfl
  rw [Blob.outcome_ofText_marked hmark, Blob.ofBase16, hodd]

/-- The text is refused exactly if it is the short one. -/
theorem refuses_text_iff (a : Address) :
    (∃ e, (Blob.ofText a.text).outcome = .error (.decode e) ∧ e.reason = .malformedBytes) ↔
      a.isSpecial = true := by
  by_cases h : a.isSpecial = true
  · exact iff_of_true ⟨_, outcome_ofText_special h, rfl⟩ h
  · have hlong : a.text = a.longText := by
      rw [text, bareText_of_not_special (by simpa using h), longText]
    refine iff_of_false ?_ h
    rintro ⟨e, he, -⟩
    rw [hlong, (ofText_longDigits a _ List.mem_cons_self).2] at he
    cases he

/-! ### Both ways -/

/-- **Bytes and addresses convert consistently.**  The text of 1 to 32 bytes is read as the address
of the bytes after zero bytes, and no other number of bytes is.  Bytes that are given as they are
have to be 32, so these are taken in both forms, and as equal addresses.  The long text of an
address, with or without the mark, is read as its bytes by both readers, and its text is refused as
malformed bytes exactly if the address is special. -/
theorem bytes_convert :
    (∀ b : Blob,
      TextVerdict b.bytes ((relaxed b.text).mapError Error.reason) ∧
      BytesVerdict b.bytes ((ofInput (.bytes b.bytes)).mapError Error.reason) ∧
      ((∃ a a', ofInput (.bytes b.bytes) = .ok a ∧ ofInput (.text b.text) = .ok a') ↔
        b.bytes.length = 32) ∧
      ∀ a a', ofInput (.bytes b.bytes) = .ok a → ofInput (.text b.text) = .ok a' →
        a.equals a' = true) ∧
    ∀ a : Address,
      (∀ t ∈ [a.longText, Base16.encode a.bytes],
        Hex.ofText t = .ok ⟨a.bytes⟩ ∧ Blob.ofText t = .ofExcept (.ok ⟨a.bytes⟩)) ∧
      ((∃ e, (Blob.ofText a.text).outcome = .error (.decode e) ∧ e.reason = .malformedBytes) ↔
        a.isSpecial = true) := by
  refine ⟨fun b => ⟨textVerdict b, bytesVerdict b.bytes, ?_, fun a a' ha ha' => ?_⟩, fun a =>
    ⟨ofText_longDigits a, refuses_text_iff a⟩⟩
  · constructor
    · rintro ⟨a, a', hboth⟩
      rw [← (both_eq_ok_iff.1 hboth).1, a.length_bytes]
    · intro hlen
      exact ⟨⟨b.bytes, hlen⟩, _, both_eq_ok_iff.2 ⟨rfl, rfl⟩⟩
  · rw [equals_iff]
    exact (both_eq_ok_iff.1 ⟨ha, ha'⟩).2.symm

end Address

end WireCodec

import WireCodec.Proofs.Base64

/-
**What clearing changes before a strict reading.**

A strict reader refuses set bits after the last byte, so a lenient one clears them beforehand.  The
mask has to fit: one bit too narrow and the strict reader still finds a set bit, one too wide and
the last byte is another one.  It also has to leave alone whatever the strict reader refuses for
another reason, or the refusal would name another reason.  Here the bits that are cleared are shown
to be the spare ones exactly, and reading after clearing is described by checks on the text as it
was given.

Main definitions:

* `Base64.LastData`: the place of the last unit before the padding;
* `Base64.Verdict`: what is said about a text whose spare bits do not matter.

Main results:

* `Base64.bits_clearLast`: **clearing sets the bits after the last byte to zero, and no other**;
* `Base64.getElem?_clearSpareBits`: only the last unit before the padding may change;
* `Base64.decodeLenient_eq_iff`: the verdict on every text;
* `Base64.clearSpareBits_forgives`: **clearing makes set spare bits acceptable and changes nothing
  else**.
-/

set_option relaxedAutoImplicit false
set_option autoImplicit false

namespace WireCodec

namespace Base64

/-! ### The bits that are cleared -/

theorem clearLow_clearLow (n : Nat) (s : Sextet) : clearLow n (clearLow n s) = clearLow n s := by
  have hkept : s.val / Nat.pow 2 n * Nat.pow 2 n / Nat.pow 2 n = s.val / Nat.pow 2 n :=
    Nat.mul_div_cancel _ (Nat.pow_pos Nat.two_pos)
  exact Fin.ext (congrArg (· * Nat.pow 2 n) hkept)

/-- Clearing the last bits of a sextet keeps the others. -/
theorem bits_clearLow {m n : Nat} (hwidth : m + n = 6) (s : Sextet) :
    Bits.ofNat 6 (clearLow n s).val = (Bits.ofNat 6 s.val).take m ++ List.replicate n false := by
  have hkept : (Bits.ofNat (m + n) s.val).take m = Bits.ofNat m (s.val / 2 ^ n) := by
    rw [Bits.ofNat_add, List.take_left' (Bits.length_ofNat ..)]
  have hcleared : Bits.ofNat m (s.val / 2 ^ n) ++ Bits.ofNat n 0 =
      Bits.ofNat (m + n) (s.val / 2 ^ n * 2 ^ n) := Bits.ofNat_append (Nat.two_pow_pos n) ..
  rw [← hwidth, hkept, ← Bits.ofNat_zero, hcleared]
  rfl

/-- **Clearing sets the bits after the last byte to zero, and no other.** -/
theorem bits_clearLast (ss : List Sextet) :
    bits (clearLast ss) =
      (bits ss).take (8 * (6 * ss.length / 8)) ++ List.replicate (spareBits ss.length) false := by
  rcases List.eq_nil_or_concat' ss with rfl | ⟨a, s, rfl⟩
  · rfl
  · have hwidth : 6 - spareBits (a.length + 1) + spareBits (a.length + 1) = 6 := by
      rw [spareBits]
      omega
    have hwhole : 8 * (6 * (a.length + 1) / 8) = 6 * a.length + (6 - spareBits (a.length + 1)) := by
      rw [spareBits]
      omega
    have hlast : ∀ s : Sextet, bits (a ++ [s]) = bits a ++ Bits.ofNat 6 s.val := by simp [bits]
    rw [clearLast_append_singleton, hlast, hlast, bits_clearLow hwidth, List.length_append,
      List.length_singleton, hwhole, ← length_bits a, List.take_length_add_append,
      List.append_assoc]

/-! ### The unit that is cleared -/

/-- The place of the last unit before the padding. -/
structure LastData (t : Text) (i : Nat) : Prop where
  data : ∃ u, t[i]? = some u ∧ u ≠ pad
  padded : ∀ j, i < j → ∀ u, t[j]? = some u → u = pad

theorem clearUnit_clearUnit (n : Nat) (u : CodeUnit) :
    clearUnit n (clearUnit n u) = clearUnit n u := by
  cases hs : sextet? u with
  | none => simp only [clearUnit, hs]
  | some s => simp only [clearUnit, hs, sextet?_letter, clearLow_clearLow]

/-- A text is padding, or has a last unit before its padding. -/
theorem pads_or_exists_last (t : Text) :
    (∃ n, t = List.replicate n pad) ∨
      ∃ (a : Text) (u : CodeUnit) (n : Nat), u ≠ pad ∧ t = a ++ [u] ++ List.replicate n pad := by
  obtain ⟨d, n, rfl, hd⟩ := exists_data t
  rcases List.eq_nil_or_concat' d with rfl | ⟨a, u, rfl⟩
  · exact .inl ⟨n, rfl⟩
  · exact .inr ⟨a, u, n, by simpa using hd, rfl⟩

theorem lastData_append (a : Text) {u : CodeUnit} (hu : u ≠ pad) (n : Nat) :
    LastData (a ++ [u] ++ List.replicate n pad) a.length := by
  refine ⟨⟨u, by simp, hu⟩, fun j hj v hv => ?_⟩
  rw [List.getElem?_append_right (by rwa [List.length_append])] at hv
  exact List.eq_of_mem_replicate (List.mem_of_getElem? hv)

theorem length_clearSpareBits (t : Text) : (clearSpareBits t).length = t.length := by
  rcases pads_or_exists_last t with ⟨n, rfl⟩ | ⟨a, u, n, hu, rfl⟩
  · rw [clearSpareBits_pads]
  · rw [clearSpareBits_append a hu]
    simp

/-- Only the last unit before the padding may change. -/
theorem getElem?_clearSpareBits (t : Text) (i : Nat) :
    (clearSpareBits t)[i]? = t[i]? ∨ LastData t i := by
  rcases pads_or_exists_last t with ⟨n, rfl⟩ | ⟨a, u, n, hu, rfl⟩
  · rw [clearSpareBits_pads]
    exact .inl rfl
  · by_cases hi : i = a.length
    · rw [hi]
      exact .inr (lastData_append a hu n)
    · left
      rw [clearSpareBits_append a hu, List.append_assoc, List.append_assoc]
      rcases Nat.lt_or_ge i a.length with hfront | hback
      · rw [List.getElem?_append_left hfront, List.getElem?_append_left hfront]
      · obtain ⟨k, rfl⟩ : ∃ k, i = a.length + (k + 1) := ⟨i - a.length - 1, by omega⟩
        rw [List.getElem?_append_right hback, List.getElem?_append_right hback]
        simp

theorem clearSpareBits_clearSpareBits (t : Text) :
    clearSpareBits (clearSpareBits t) = clearSpareBits t := by
  rcases pads_or_exists_last t with ⟨n, rfl⟩ | ⟨a, u, n, hu, rfl⟩
  · rw [clearSpareBits_pads, clearSpareBits_pads]
  · rw [clearSpareBits_append a hu, clearSpareBits_append a (clearUnit_ne_pad _ hu),
      clearUnit_clearUnit]

/-! ### The verdict -/

/-- What is said about a text whose spare bits do not matter.  The rows exclude each other. -/
inductive Verdict (t : Text) : Except Fault Bytes → Prop where
  | partialBytes (hgroups : t.length % 4 ≠ 0) : Verdict t (.error .partialBytes)
  | tooMuchPadding (hgroups : t.length % 4 = 0) (hpads : List.replicate 4 pad <:+ t) :
      Verdict t (.error .tooMuchPadding)
  /-- The first unit of the data that is no letter is named. -/
  | unknownLetter {ss : List Sextet} {u : CodeUnit} {rest : Text} {n : Nat}
      (hgroups : t.length % 4 = 0) (hpads : ¬ List.replicate 4 pad <:+ t)
      (ht : t = ss.map letter ++ u :: rest ++ List.replicate n pad)
      (hdata : (u :: rest).getLast? ≠ some pad) (hu : ∀ s, letter s ≠ u) :
      Verdict t (.error (.unknownLetter u))
  /-- A letter alone is less than a byte. -/
  | excessPadding {ss : List Sextet} (hone : ss.length % 4 = 1)
      (ht : t = ss.map letter ++ List.replicate 3 pad) : Verdict t (.error .excessPadding)
  /-- The bits of the letters fill the bytes, and what is left over does not count. -/
  | bytes {bytes : Bytes} (h : Writes t bytes) : Verdict t (.ok bytes)

theorem sextet?_eq_none_iff {u : CodeUnit} : sextet? u = none ↔ ∀ s, letter s ≠ u := by
  constructor
  · rintro h s rfl
    simp at h
  · intro h
    cases hs : sextet? u with
    | none => rfl
    | some s => exact absurd (letter_of_sextet? hs) (h s)

/-- Reading sextets fails at the first unit that is no letter. -/
theorem sextets_eq_error_iff {d : Text} {fault : Fault} :
    sextets d = .error fault ↔ ∃ (ss : List Sextet) (u : CodeUnit) (rest : Text),
      d = ss.map letter ++ u :: rest ∧ (∀ s, letter s ≠ u) ∧ fault = .unknownLetter u := by
  constructor
  · intro h
    induction d with
    | nil => cases h
    | cons v d ih =>
        rw [sextets] at h
        cases hv : sextet? v with
        | none =>
            rw [hv] at h
            exact ⟨[], v, d, rfl, sextet?_eq_none_iff.1 hv, (Except.error.inj h).symm⟩
        | some s =>
            rw [hv] at h
            cases hd : sextets d with
            | ok ss => simp [hd, Except.map] at h
            | error fault' =>
                simp only [hd, Except.map, Except.error.injEq] at h
                obtain ⟨ss, u, rest, rfl, hu, hfault⟩ := ih (hd.trans (by rw [h]))
                exact ⟨s :: ss, u, rest, by rw [List.map_cons, letter_of_sextet? hv]; rfl, hu,
                  hfault⟩
  · rintro ⟨ss, u, rest, rfl, hu, rfl⟩
    rw [sextets_append, sextets_map_letter, sextets, sextet?_eq_none_iff.2 hu]
    rfl

section Padded

variable {d : Text} (hd : d.getLast? ≠ some pad) (n : Nat)
include hd

/-- All padding at the end of a text stands behind its data. -/
theorem pads_suffix_iff (k : Nat) :
    List.replicate k pad <:+ d ++ List.replicate n pad ↔ k ≤ n := by
  constructor
  · rintro ⟨a, ha⟩
    by_contra hk
    obtain ⟨m, rfl⟩ : ∃ m, k = m + 1 + n := ⟨k - n - 1, by omega⟩
    rw [List.replicate_add, ← List.append_assoc] at ha
    have hpads : a ++ List.replicate (m + 1) pad = d := List.append_cancel_right ha
    rw [List.replicate_succ', ← List.append_assoc] at hpads
    exact hd (by rw [← hpads, List.getLast?_concat])
  · intro hk
    obtain ⟨m, rfl⟩ := Nat.exists_eq_add_of_le hk
    exact ⟨d ++ List.replicate m pad, by
      rw [List.append_assoc, ← List.replicate_add, Nat.add_comm]⟩

end Padded

/-- One row of the verdict applies to the text. -/
theorem verdict_decodeLenient (t : Text) : Verdict t (decodeLenient t) := by
  by_cases hgroups : t.length % 4 = 0
  · obtain ⟨d, n, rfl, hd⟩ := exists_data t
    have hlen : (d.length + n) % 4 = 0 := by simpa using hgroups
    rw [decodeLenient_append_pad hd n hgroups]
    split
    · next hn => exact .tooMuchPadding hgroups ((pads_suffix_iff hd n 4).2 hn)
    · next hn =>
        cases hss : sextets d with
        | error fault =>
            obtain ⟨ss, u, rest, rfl, hu, rfl⟩ := sextets_eq_error_iff.1 hss
            exact .unknownLetter hgroups (mt (pads_suffix_iff hd n 4).1 hn) rfl
              (by simpa using hd) hu
        | ok ss =>
            have hletters := eq_map_letter_of_sextets hss
            have hcount := length_of_sextets hss
            rw [Except.bind]
            by_cases hone : ss.length % 4 = 1
            · obtain rfl : n = 3 := by omega
              rw [if_pos hone]
              exact .excessPadding hone (by rw [hletters])
            · rw [if_neg hone]
              exact .bytes ⟨hgroups, ss, n, by omega, by rw [hletters], bytesOf_eq ss⟩
  · rw [decodeLenient, if_pos hgroups]
    exact .partialBytes hgroups

/-- Each row says what the lenient reader does. -/
theorem Verdict.eq {t : Text} {outcome : Except Fault Bytes} (h : Verdict t outcome) :
    decodeLenient t = outcome := by
  cases h with
  | partialBytes hgroups => exact if_pos hgroups
  | tooMuchPadding hgroups hpads =>
      obtain ⟨d, n, rfl, hd⟩ := exists_data t
      rw [decodeLenient_append_pad hd n hgroups, if_pos ((pads_suffix_iff hd n 4).1 hpads)]
  | @unknownLetter ss u rest n hgroups hpads ht hdata hu =>
      subst ht
      have hd : (ss.map letter ++ u :: rest).getLast? ≠ some pad := by simpa using hdata
      rw [decodeLenient_append_pad hd n hgroups, if_neg (mt (pads_suffix_iff hd n 4).2 hpads),
        sextets_eq_error_iff.2 ⟨ss, u, rest, rfl, hu, rfl⟩]
      rfl
  | @excessPadding ss hone ht =>
      subst ht
      rw [decodeLenient_append_pad (getLast?_map_letter ss) 3 (by simp; omega),
        if_neg (by decide), sextets_map_letter]
      exact if_pos hone
  | bytes hwrites => exact decodeLenient_eq_ok_iff.2 hwrites

/-- The verdict on every text. -/
theorem decodeLenient_eq_iff {t : Text} {outcome : Except Fault Bytes} :
    decodeLenient t = outcome ↔ Verdict t outcome := by
  constructor
  · rintro rfl
    exact verdict_decodeLenient t
  · exact Verdict.eq

/-! ### Strict and lenient reading -/

/-- Strict reading differs from lenient reading where it finds set bits after the last byte, and
nowhere else. -/
theorem decodeLenient_eq_or (t : Text) :
    decodeLenient t = decode t ∨
      ∃ bits bytes, decode t = .error (.nonZeroPadding bits) ∧ decodeLenient t = .ok bytes := by
  rw [decode, decodeLenient]
  split
  · exact .inl rfl
  · split
    · exact .inl rfl
    · cases sextets (unpadded t) with
      | error fault => exact .inl rfl
      | ok ss =>
          by_cases hone : ss.length % 4 = 1
          · exact .inl (by simp only [hone, if_true])
          · by_cases hleft : leftover ss = 0
            · exact .inl (by simp [hone, hleft])
            · exact .inr ⟨leftover ss, bytesOf ss, by simp [hone, hleft], by simp [hone]⟩

/-- **Clearing makes set spare bits acceptable and changes nothing else.**  The text stays as long
as it is, and no unit changes but the last one before the padding, which changes once and for all.
Read strictly after that, no text has set bits after its last byte: what is said about it is what
the checks say about the text as it was given, and its bytes are those of its own letters.  Strict
reading of the text itself says the same, unless it finds set bits, and then there are bytes. -/
theorem clearSpareBits_forgives (t : Text) :
    (clearSpareBits t).length = t.length ∧
    (∀ i, (clearSpareBits t)[i]? = t[i]? ∨ LastData t i) ∧
    clearSpareBits (clearSpareBits t) = clearSpareBits t ∧
    (∀ bits, decode (clearSpareBits t) ≠ .error (.nonZeroPadding bits)) ∧
    (∀ outcome, decode (clearSpareBits t) = outcome ↔ Verdict t outcome) ∧
    (decode (clearSpareBits t) = decode t ∨ ∃ bits bytes,
      decode t = .error (.nonZeroPadding bits) ∧ decode (clearSpareBits t) = .ok bytes) := by
  have hverdict : ∀ outcome, decode (clearSpareBits t) = outcome ↔ Verdict t outcome := by
    intro outcome
    rw [decode_clearSpareBits, decodeLenient_eq_iff]
  refine ⟨length_clearSpareBits t, getElem?_clearSpareBits t, clearSpareBits_clearSpareBits t, ?_,
    hverdict, ?_⟩
  · intro bits h
    cases (hverdict _).1 h
  · rw [decode_clearSpareBits]
    exact decodeLenient_eq_or t

/-- Four spare bits, of which the last is set. -/
example : decode "Eh==" = .error (.nonZeroPadding 16) ∧ clearSpareBits "Eh==" = "Eg==" ∧
    decode (clearSpareBits "Eh==") = .ok [0x12] := by
  decide

end Base64

end WireCodec

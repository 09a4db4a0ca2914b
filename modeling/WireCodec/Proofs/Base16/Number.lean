import Mathlib.Data.Nat.Digits.Lemmas
import WireCodec.Proofs.Hex

/-
**The numbers that digits and bytes denote.**

A text of digits is a number in base 16, and bytes are one in base 256, the most significant place
first in both.  The reader of digit pairs puts two places of the one into one place of the other,
so the number stays.  It does not depend on zeros in front nor on the case of letters, and bytes of
one length are told apart by their numbers.

Main definitions:

* `Base16.Unmarks`: what is left of a text without one mark at its beginning;
* `placeValue`: the number written with places in a base;
* `Bytes.number`, `Base16.number`: the number of bytes and the number of digits;
* `Base16.Denotes`: a text of digits denotes a number;
* `Text.upper`: the ASCII small letters made capitals.

Main results:

* `Bytes.eq_of_number_eq`: bytes of one length with the same number are the same;
* `Base16.Writes.number_eq`: **a text of digit pairs denotes the number of the bytes it writes**;
* `Base16.denotes_zeros_append`, `Base16.denotes_upper`: zeros in front and the case of letters do
  not matter.
-/

set_option relaxedAutoImplicit false
set_option autoImplicit false

namespace WireCodec

/-! ### Places -/

/-- The number that is written with the given places in a base, the most significant first. -/
def placeValue (base : Nat) (places : List Nat) : Nat := Nat.ofDigits base places.reverse

theorem placeValue_cons (base place : Nat) (places : List Nat) :
    placeValue base (place :: places) =
      placeValue base places + base ^ places.length * place := by
  rw [placeValue, Nat.ofDigits_reverse_cons, ← placeValue]

theorem placeValue_zeros_append (base count : Nat) (places : List Nat) :
    placeValue base (List.replicate count 0 ++ places) = placeValue base places := by
  rw [placeValue, List.reverse_append, List.reverse_replicate,
    Nat.ofDigits_append_replicate_zero, ← placeValue]

/-- The number that bytes denote. -/
def Bytes.number (bytes : Bytes) : Nat := placeValue 256 (bytes.map UInt8.toNat)

/-- Bytes of one length with the same number are the same. -/
theorem Bytes.eq_of_number_eq {a b : Bytes} (hlen : a.length = b.length)
    (h : a.number = b.number) : a = b := by
  have hlt : ∀ bytes : Bytes, ∀ place ∈ (bytes.map UInt8.toNat).reverse, place < 256 := by
    intro bytes place hplace
    obtain ⟨v, -, rfl⟩ := List.mem_map.1 (List.mem_reverse.1 hplace)
    exact v.toNat_lt
  have hplaces := Nat.ofDigits_inj_of_len_eq (by decide) (by simpa using hlen) (hlt a) (hlt b) h
  exact (List.map_inj_right fun _ _ => UInt8.toNat_inj.1).1 (List.reverse_injective hplaces)

namespace Base16

/-! ### The mark -/

/-- What is left of a text without one mark, if it begins with the mark. -/
inductive Unmarks : Text → Text → Prop where
  | marked (rest : Text) : Unmarks (mark ++ rest) rest
  | bare {t : Text} (h : ¬ mark <+: t) : Unmarks t t

theorem unmarks_iff {t rest : Text} : Unmarks t rest ↔ unmarked t = rest := by
  constructor
  · intro h
    cases h with
    | marked => exact unmarked_mark_append rest
    | bare h => exact unmarked_of_not_marked h
  · rintro rfl
    by_cases h : mark <+: t
    · obtain ⟨rest, rfl⟩ := h
      rw [unmarked_mark_append]
      exact .marked rest
    · rw [unmarked_of_not_marked h]
      exact .bare h

/-! ### Digits -/

/-- The number that digits denote. -/
def number (ds : List (Fin 16)) : Nat := placeValue 16 (ds.map Fin.val)

theorem number_zeros_append (count : Nat) (ds : List (Fin 16)) :
    number (List.replicate count 0 ++ ds) = number ds := by
  rw [number, List.map_append, List.map_replicate, Fin.val_zero, placeValue_zeros_append, ← number]

/-- Digit pairs are places of base 256. -/
theorem number_bytes_bits {ds : List (Fin 16)} (h : ds.length % 2 = 0) :
    Bytes.number (Bits.bytes (bits ds)) = number ds := by
  match ds with
  | [] => rfl
  | [_] => simp at h
  | x :: y :: ds =>
      have hlen : ds.length % 2 = 0 := by
        simp only [List.length_cons] at h
        omega
      have ih := number_bytes_bits hlen
      have hpair : (UInt8.ofNat (16 * x.val + y.val)).toNat = 16 * x.val + y.val := by
        rw [UInt8.toNat_ofNat']
        exact Nat.mod_eq_of_lt (by omega)
      have hpow : 256 ^ (Bits.bytes (bits ds)).length = 16 ^ ds.length := by
        rw [Bits.length_bytes, length_bits, show 256 = 16 ^ 2 from rfl, ← pow_mul]
        congr 1
        omega
      rw [Bytes.number] at ih
      rw [bits_cons_cons, Bits.bytes_ofNat_append, Bytes.number, List.map_cons, placeValue_cons, ih,
        List.length_map, hpair, hpow, number, number, List.map_cons, List.map_cons,
        placeValue_cons, placeValue_cons, List.length_cons, List.length_map, pow_succ]
      ring

/-! ### Texts of digits -/

/-- The text is digits, and they denote the number. -/
def Denotes (t : Text) (n : Nat) : Prop :=
  ∃ ds : List (Fin 16), t.map digit? = ds.map some ∧ number ds = n

section

variable {t : Text} {n : Nat}

theorem Denotes.unique {m : Nat} (h : Denotes t m) (h' : Denotes t n) : m = n := by
  obtain ⟨ds, hds, rfl⟩ := h
  obtain ⟨ds', hds', rfl⟩ := h'
  have hmap : ds.map some = ds'.map some := hds.symm.trans hds'
  rw [List.map_injective_iff.2 (Option.some_injective _) hmap]

theorem Denotes.isDigit (h : Denotes t n) : ∀ u ∈ t, u ∈ digitUnits := by
  intro u hu
  obtain ⟨ds, hds, -⟩ := h
  have hmem : digit? u ∈ ds.map some := hds ▸ List.mem_map_of_mem hu
  obtain ⟨d, -, hd⟩ := List.mem_map.1 hmem
  exact isDigit_iff.1 (isDigit_of_digit? hd.symm)

theorem exists_denotes (h : ∀ u ∈ t, u ∈ digitUnits) : ∃ n, Denotes t n := by
  obtain ⟨ds, hds⟩ := exists_digits fun u hu => isDigit_iff.2 (h u hu)
  exact ⟨number ds, ds, hds, rfl⟩

/-- **A text of digit pairs denotes the number of the bytes it writes.** -/
theorem Writes.number_eq {bytes : Bytes} (h : Writes t bytes) :
    Denotes t n ↔ Bytes.number bytes = n := by
  obtain ⟨ds, hds, hlen, rfl⟩ := h
  have hdenotes : Denotes t (Bytes.number (Bits.bytes (bits ds))) :=
    ⟨ds, hds, (number_bytes_bits hlen).symm⟩
  constructor
  · exact hdenotes.unique
  · rintro rfl
    exact hdenotes

/-- Zeros in front do not change the number. -/
theorem denotes_zeros_append (count : Nat) :
    Denotes (List.replicate count (Text.unit '0') ++ t) n ↔ Denotes t n := by
  have hzero : digit? (Text.unit '0') = some 0 := by decide
  have hzeros : ∀ {m : Nat}, Denotes t m →
      Denotes (List.replicate count (Text.unit '0') ++ t) m := by
    rintro m ⟨ds, hds, rfl⟩
    refine ⟨List.replicate count 0 ++ ds, ?_, number_zeros_append count ds⟩
    rw [List.map_append, List.map_append, List.map_replicate, List.map_replicate, hzero, hds]
  constructor
  · intro h
    obtain ⟨m, hm⟩ := exists_denotes fun u hu => h.isDigit u (List.mem_append_right _ hu)
    rw [h.unique (hzeros hm)]
    exact hm
  · exact hzeros

end

end Base16

/-! ### Letter case -/

/-- The capital of an ASCII small letter; every other unit stays. -/
def Text.upperUnit (u : CodeUnit) : CodeUnit :=
  if 97 ≤ u.toNat ∧ u.toNat ≤ 122 then UInt16.ofNat (u.toNat - 32) else u

/-- A text with its ASCII small letters made capitals. -/
def Text.upper (t : Text) : Text := t.map Text.upperUnit

namespace Base16

/-- A digit keeps its value in the other case. -/
theorem digit?_upperUnit (u : CodeUnit) : digit? (Text.upperUnit u) = digit? u := by
  rw [Text.upperUnit]
  split
  · next hsmall =>
      have hupper : (UInt16.ofNat (u.toNat - 32)).toNat = u.toNat - 32 := by
        rw [UInt16.toNat_ofNat']
        exact Nat.mod_eq_of_lt (by omega)
      simp only [digit?, hupper]
      by_cases h : u.toNat ≤ 102
      · rw [dif_neg (by omega), dif_pos (by omega), dif_neg (by omega), dif_neg (by omega),
          dif_pos (by omega)]
        simp
        omega
      · rw [dif_neg (by omega), dif_neg (by omega), dif_neg (by omega), dif_neg (by omega),
          dif_neg (by omega), dif_neg (by omega)]
  · rfl

/-- The case of letters does not change the number. -/
theorem denotes_upper {t : Text} {n : Nat} : Denotes (Text.upper t) n ↔ Denotes t n := by
  have hdigits : (Text.upper t).map digit? = t.map digit? := by
    rw [Text.upper, List.map_map]
    exact List.map_congr_left fun u _ => digit?_upperUnit u
  rw [Denotes, Denotes, hdigits]

end Base16

end WireCodec

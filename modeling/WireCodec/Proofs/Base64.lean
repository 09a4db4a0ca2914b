import Mathlib.Data.List.Basic
import Mathlib.Data.List.Induction
import WireCodec.Base64
import WireCodec.Proofs.Bits

/-
**What a text in base sixty-four writes.**

`Base64.decode` is strict about the bits after the last byte, and its callers clear them first.
Here the two steps are shown to be one lenient reader, which makes the same checks on the text as
it was given, and the lenient reader is compared with a description of the texts it accepts: some
letters, each of which stands for six bits, and at most two units of padding up to a multiple of
four.

Main definitions:

* `Base64.bits`: the bits of sextets, one after another;
* `Base64.clearLast`: sextets of which the last has no bits after the last byte;
* `Base64.clearUnit`: a letter without its last bits;
* `Base64.decodeLenient`: the reader that ignores the bits after the last byte;
* `Base64.Writes`: a text is letters and padding that write some bytes.

Main results:

* `Base64.bytesOf_eq`: the bytes of sextets are the bytes of their bits;
* `Base64.clearSpareBits_append`: the last unit before the padding is all that clearing touches;
* `Base64.decode_clearSpareBits`: clearing and strict reading is lenient reading;
* `Base64.decodeLenient_eq_ok_iff`: lenient reading succeeds exactly on the texts that write
  bytes, with these.
-/

set_option relaxedAutoImplicit false
set_option autoImplicit false

namespace WireCodec

namespace Base64

/-! ### Letters -/

/-- The letters as numbers: four ranges and two single units. -/
theorem toNat_letter (s : Sextet) :
    (letter s).toNat =
      if s.val < 26 then 65 + s.val
      else if s.val < 52 then 71 + s.val
      else if s.val < 62 then s.val - 4
      else if s.val = 62 then 43 else 47 := by
  revert s
  decide

/-- A unit with a sextet is the letter of the sextet. -/
theorem letter_of_sextet? {u : CodeUnit} {s : Sextet} (h : sextet? u = some s) : letter s = u := by
  refine UInt16.toNat_inj.1 ?_
  rw [toNat_letter]
  rw [sextet?] at h
  split at h
  · obtain rfl := Option.some_inj.1 h
    grind
  · split at h
    · obtain rfl := Option.some_inj.1 h
      grind
    · split at h
      · obtain rfl := Option.some_inj.1 h
        grind
      · split at h
        · next hu =>
            obtain rfl := Option.some_inj.1 h
            rw [hu]
            rfl
        · split at h
          · next hu =>
              obtain rfl := Option.some_inj.1 h
              rw [hu]
              rfl
          · simp at h

/-- Padding is no letter. -/
theorem letter_ne_pad (s : Sextet) : letter s ≠ pad := by
  revert s
  decide

/-- The letters in order. -/
theorem alphabet_eq :
    alphabet = "ABCDEFGHIJKLMNOPQRSTUVWXYZabcdefghijklmnopqrstuvwxyz0123456789+/" := by
  decide

/-! ### Sextets -/

/-- The sextets of letters are read back. -/
theorem sextets_map_letter (ss : List Sextet) : sextets (ss.map letter) = .ok ss := by
  induction ss with
  | nil => rfl
  | cons s ss ih => simp [sextets, ih, Except.map]

/-- A text whose sextets can be read is their letters. -/
theorem eq_map_letter_of_sextets {t : Text} {ss : List Sextet} (h : sextets t = .ok ss) :
    t = ss.map letter := by
  induction t generalizing ss with
  | nil =>
      rw [sextets, Except.ok.injEq] at h
      rw [← h]
      rfl
  | cons u t ih =>
      rw [sextets] at h
      cases hu : sextet? u with
      | none => simp [hu] at h
      | some s =>
          cases hrest : sextets t with
          | error fault => simp [hu, hrest, Except.map] at h
          | ok ss' =>
              simp only [hu, hrest, Except.map, Except.ok.injEq] at h
              rw [← h, List.map_cons, letter_of_sextet? hu, ← ih hrest]

/-- Reading sextets goes from left to right. -/
theorem sextets_append (a b : Text) :
    sextets (a ++ b) = match sextets a with
      | .error fault => .error fault
      | .ok ss => (sextets b).map (ss ++ ·) := by
  induction a with
  | nil => cases h : sextets b <;> simp [sextets, h, Except.map]
  | cons u a ih =>
      rw [List.cons_append, sextets, sextets, ih]
      cases sextet? u with
      | none => rfl
      | some s =>
          cases sextets a with
          | error fault => rfl
          | ok ss => cases sextets b <;> rfl

/-! ### Bits -/

/-- The bits of sextets, one after another. -/
def bits (ss : List Sextet) : List Bool := ss.flatMap fun s => Bits.ofNat 6 s.val

@[simp] theorem length_bits (ss : List Sextet) : (bits ss).length = 6 * ss.length :=
  Bits.length_flatMap_ofNat 6 Fin.val ss

/-- Four sextets are the bits of three bytes. -/
theorem bits_group (a b c d : Sextet) (ss : List Sextet) :
    bits (a :: b :: c :: d :: ss) =
      Bits.ofNat 8 (4 * a.val + b.val / 16) ++ (Bits.ofNat 8 (16 * (b.val % 16) + c.val / 4)
        ++ (Bits.ofNat 8 (64 * (c.val % 4) + d.val) ++ bits ss)) := by
  -- both sides are the bits of one number below 2^24
  have hsextets : bits (a :: b :: c :: d :: ss) =
      Bits.ofNat 24 (((a.val * 64 + b.val) * 64 + c.val) * 64 + d.val) ++ bits ss := by
    have hab : Bits.ofNat 6 a.val ++ Bits.ofNat 6 b.val = Bits.ofNat 12 (a.val * 64 + b.val) :=
      Bits.ofNat_append b.isLt _ _
    have habc : Bits.ofNat 12 (a.val * 64 + b.val) ++ Bits.ofNat 6 c.val =
        Bits.ofNat 18 ((a.val * 64 + b.val) * 64 + c.val) := Bits.ofNat_append c.isLt _ _
    have habcd : Bits.ofNat 18 ((a.val * 64 + b.val) * 64 + c.val) ++ Bits.ofNat 6 d.val =
        Bits.ofNat 24 (((a.val * 64 + b.val) * 64 + c.val) * 64 + d.val) :=
      Bits.ofNat_append d.isLt _ _
    simp only [bits, List.flatMap_cons, ← List.append_assoc]
    rw [hab, habc, habcd]
  have hbytes : ∀ x y z : Nat, y < 2 ^ 8 → z < 2 ^ 8 →
      Bits.ofNat 8 x ++ (Bits.ofNat 8 y ++ (Bits.ofNat 8 z ++ bits ss)) =
        Bits.ofNat 24 ((x * 256 + y) * 256 + z) ++ bits ss := by
    intro x y z hy hz
    have hxy : Bits.ofNat 8 x ++ Bits.ofNat 8 y = Bits.ofNat 16 (x * 256 + y) :=
      Bits.ofNat_append hy _ _
    have hxyz : Bits.ofNat 16 (x * 256 + y) ++ Bits.ofNat 8 z =
        Bits.ofNat 24 ((x * 256 + y) * 256 + z) := Bits.ofNat_append hz _ _
    simp only [← List.append_assoc]
    rw [hxy, hxyz]
  have hb := b.isLt
  have hc := c.isLt
  have hd := d.isLt
  rw [hsextets, hbytes _ _ _ (by omega) (by omega)]
  congr 2
  omega

/-- Three sextets are the bits of two bytes and two bits left over. -/
theorem bits_three (a b c : Sextet) :
    bits [a, b, c] = Bits.ofNat 8 (4 * a.val + b.val / 16)
      ++ (Bits.ofNat 8 (16 * (b.val % 16) + c.val / 4) ++ Bits.ofNat 2 (c.val % 4)) := by
  have hb := b.isLt
  have hc := c.isLt
  have hlast : c.val % 4 < 2 ^ 2 := Nat.mod_lt _ (by decide)
  have hsecond : 16 * (b.val % 16) + c.val / 4 < 2 ^ 8 := by omega
  simp only [bits, List.flatMap_cons, List.flatMap_nil, List.append_nil, ← List.append_assoc]
  rw [Bits.ofNat_append b.isLt, Bits.ofNat_append c.isLt, Bits.ofNat_append hsecond,
    Bits.ofNat_append hlast]
  congr 1
  omega

/-- Two sextets are the bits of one byte and four bits left over. -/
theorem bits_two (a b : Sextet) :
    bits [a, b] = Bits.ofNat 8 (4 * a.val + b.val / 16) ++ Bits.ofNat 4 (b.val % 16) := by
  have hlast : b.val % 16 < 2 ^ 4 := Nat.mod_lt _ (by decide)
  simp only [bits, List.flatMap_cons, List.flatMap_nil, List.append_nil]
  rw [Bits.ofNat_append b.isLt, Bits.ofNat_append hlast]
  congr 1
  omega

/-- The bytes of sextets are the bytes of their bits. -/
theorem bytesOf_eq (ss : List Sextet) : bytesOf ss = Bits.bytes (bits ss) := by
  fun_induction bytesOf ss with
  | case1 a b c d rest ih =>
      rw [bits_group, Bits.bytes_ofNat_append, Bits.bytes_ofNat_append, Bits.bytes_ofNat_append, ih]
  | case2 a b c =>
      rw [bits_three, Bits.bytes_ofNat_append, Bits.bytes_ofNat_append,
        Bits.bytes_of_length_lt (by simp)]
  | case3 a b => rw [bits_two, Bits.bytes_ofNat_append, Bits.bytes_of_length_lt (by simp)]
  | case4 ss hfour hthree htwo =>
      -- fewer than two sextets fill no byte
      match ss with
      | [] => rfl
      | [s] => rw [Bits.bytes_of_length_lt (by simp)]
      | [a, b] => exact absurd rfl (htwo a b)
      | [a, b, c] => exact absurd rfl (hthree a b c)
      | a :: b :: c :: d :: rest => exact absurd rfl (hfour a b c d rest)

/-! ### Bits after the last byte -/

/-- Sextets of which the last has no bits after the last byte. -/
def clearLast (ss : List Sextet) : List Sextet :=
  ss.modify (ss.length - 1) (clearLow (spareBits ss.length))

@[simp] theorem length_clearLast (ss : List Sextet) : (clearLast ss).length = ss.length := by
  simp [clearLast]

/-- Where no bits are spare, nothing is cleared. -/
@[simp] theorem clearLow_zero (s : Sextet) : clearLow 0 s = s := by
  ext
  simp [clearLow]

theorem clearLast_append_singleton (ss : List Sextet) (s : Sextet) :
    clearLast (ss ++ [s]) = ss ++ [clearLow (spareBits (ss.length + 1)) s] := by
  have hmodify : ∀ (f : Sextet → Sextet) (l : List Sextet),
      (l ++ [s]).modify l.length f = l ++ [f s] := by
    intro f l
    induction l with
    | nil => rfl
    | cons a l ih => simp [ih]
  simp [clearLast, hmodify]

/-- Only the last group is touched. -/
theorem clearLast_group (a b c d : Sextet) (ss : List Sextet) :
    clearLast (a :: b :: c :: d :: ss) = a :: b :: c :: d :: clearLast ss := by
  have hspare : spareBits (ss.length + 1 + 1 + 1 + 1) = spareBits ss.length := by
    rw [spareBits, spareBits]
    omega
  rw [clearLast, clearLast]
  simp only [List.length_cons, hspare]
  cases ss with
  | nil =>
      rw [show spareBits ([] : List Sextet).length = 0 from rfl]
      simp
  | cons s ss => simp

/-- Clearing leaves the bytes as they are. -/
theorem bytesOf_clearLast (ss : List Sextet) : bytesOf (clearLast ss) = bytesOf ss := by
  fun_induction bytesOf ss with
  | case1 a b c d rest ih => rw [clearLast_group, bytesOf, ih]
  | case2 a b c =>
      have hc : c.val / 4 * 4 / 4 = c.val / 4 := by omega
      simp [clearLast, clearLow, spareBits, bytesOf, hc]
  | case3 a b =>
      have hb : b.val / 16 * 16 / 16 = b.val / 16 := by omega
      simp [clearLast, clearLow, spareBits, bytesOf, hb]
  | case4 ss hfour hthree htwo =>
      match ss with
      | [] | [_] => simp [clearLast, bytesOf]
      | [a, b] => exact absurd rfl (htwo a b)
      | [a, b, c] => exact absurd rfl (hthree a b c)
      | a :: b :: c :: d :: rest => exact absurd rfl (hfour a b c d rest)

/-- Clearing leaves no bits over. -/
theorem leftover_clearLast (ss : List Sextet) : leftover (clearLast ss) = 0 := by
  fun_induction leftover ss with
  | case1 a b c d rest ih => rw [clearLast_group, leftover, ih]
  | case2 a b c => simp [clearLast, clearLow, spareBits, leftover]
  | case3 a b => simp [clearLast, clearLow, spareBits, leftover]
  | case4 ss hfour hthree htwo =>
      match ss with
      | [] | [_] => simp [clearLast, leftover]
      | [a, b] => exact absurd rfl (htwo a b)
      | [a, b, c] => exact absurd rfl (hthree a b c)
      | a :: b :: c :: d :: rest => exact absurd rfl (hfour a b c d rest)

/-! ### Padding -/

/-- Every text is data that does not end in padding, followed by padding. -/
theorem exists_data (t : Text) :
    ∃ d n, t = d ++ List.replicate n pad ∧ d.getLast? ≠ some pad := by
  induction t using List.reverseRecOn with
  | nil => exact ⟨[], 0, rfl, by simp⟩
  | append_singleton t u ih =>
      by_cases hu : u = pad
      · obtain ⟨d, n, rfl, hd⟩ := ih
        exact ⟨d, n + 1, by rw [hu, List.replicate_succ', List.append_assoc], hd⟩
      · exact ⟨t ++ [u], 0, by simp, by simpa using hu⟩

section Padded

variable {d : Text} (hd : d.getLast? ≠ some pad) (n : Nat)
include hd

theorem dataLength_append_pad : dataLength (d ++ List.replicate n pad) = d.length := by
  have hdata : d.reverse.dropWhile (· == pad) = d.reverse := by
    cases hrev : d.reverse with
    | nil => rfl
    | cons u rest =>
        have hu : u ≠ pad := by
          rintro rfl
          exact hd (by rw [List.getLast?_eq_head?_reverse, hrev]; rfl)
        simp [hu]
  rw [dataLength, List.reverse_append, List.reverse_replicate]
  induction n with
  | zero => simp [hdata]
  | succ n ih => simpa [List.replicate_succ] using ih

theorem unpadded_append_pad : unpadded (d ++ List.replicate n pad) = d := by
  rw [unpadded, dataLength_append_pad hd, List.take_left]

/-- In whole groups of four, padding fills a group if there are four units of it. -/
theorem hasFullPad_append_pad (hlen : (d.length + n) % 4 = 0) :
    hasFullPad (d ++ List.replicate n pad) = decide (4 ≤ n) := by
  rw [Bool.eq_iff_iff, hasFullPad, dataLength_append_pad hd]
  simp only [List.length_append, List.length_replicate, Nat.add_sub_cancel_left, List.any_eq_true,
    List.mem_range, beq_iff_eq, decide_eq_true_eq]
  constructor
  · rintro ⟨i, hi, hfull⟩
    omega
  · intro hn
    exact ⟨n - 4, by omega, by omega⟩

end Padded

/-! ### Clearing and reading -/

/-- The sextets that can be read are as many as the units. -/
theorem length_of_sextets {t : Text} {ss : List Sextet} (h : sextets t = .ok ss) :
    ss.length = t.length := by
  rw [eq_map_letter_of_sextets h, List.length_map]

/-- A letter with its last `n` bits set to zero.  A unit outside the alphabet stays as it is. -/
def clearUnit (n : Nat) (u : CodeUnit) : CodeUnit :=
  match sextet? u with
  | some s => letter (clearLow n s)
  | none => u

@[simp] theorem clearUnit_zero (u : CodeUnit) : clearUnit 0 u = u := by
  rw [clearUnit]
  split
  · next s hs => rw [clearLow_zero, letter_of_sextet? hs]
  · rfl

theorem clearUnit_ne_pad (n : Nat) {u : CodeUnit} (hu : u ≠ pad) : clearUnit n u ≠ pad := by
  rw [clearUnit]
  split
  · exact letter_ne_pad _
  · exact hu

/-- Padding alone is not touched. -/
theorem clearSpareBits_pads (n : Nat) :
    clearSpareBits (List.replicate n pad) = List.replicate n pad := by
  have hlen : dataLength (List.replicate n pad) = 0 := dataLength_append_pad (d := []) (by simp) n
  rw [clearSpareBits, hlen]
  rfl

/-- Clearing touches the last unit before the padding, and nothing else. -/
theorem clearSpareBits_append (a : Text) {u : CodeUnit} (hu : u ≠ pad) (n : Nat) :
    clearSpareBits (a ++ [u] ++ List.replicate n pad) =
      a ++ [clearUnit (spareBits (a.length + 1)) u] ++ List.replicate n pad := by
  have hlen : dataLength (a ++ [u] ++ List.replicate n pad) = a.length + 1 := by
    rw [dataLength_append_pad (by simpa using hu), List.length_append, List.length_singleton]
  have hlast : (a ++ [u] ++ List.replicate n pad)[a.length + 1 - 1]? = some u := by simp
  simp only [clearSpareBits, hlen, hlast, Option.bind_some]
  split
  · next hspare => rw [hspare, clearUnit_zero]
  · rw [clearUnit]
    cases sextet? u with
    | none => rfl
    | some s => simp

/-- Clearing a text keeps its padding and clears the sextets of its data, if they can be read. -/
theorem exists_clearSpareBits {d : Text} (hd : d.getLast? ≠ some pad) (n : Nat) :
    ∃ d', clearSpareBits (d ++ List.replicate n pad) = d' ++ List.replicate n pad ∧
      d'.length = d.length ∧ d'.getLast? ≠ some pad ∧
      sextets d' = (sextets d).map clearLast := by
  rcases List.eq_nil_or_concat' d with rfl | ⟨a, u, rfl⟩
  · exact ⟨[], clearSpareBits_pads n, rfl, hd, rfl⟩
  · have hu : u ≠ pad := by simpa using hd
    refine ⟨a ++ [clearUnit (spareBits (a.length + 1)) u], clearSpareBits_append a hu n, by simp,
      by simpa using clearUnit_ne_pad _ hu, ?_⟩
    rw [sextets_append, sextets_append]
    cases hss : sextets a with
    | error fault => rfl
    | ok ss =>
        rw [clearUnit]
        cases hs : sextet? u with
        | none => simp [sextets, hs, Except.map]
        | some s =>
            simp only [sextets, sextet?_letter, hs, Except.map, clearLast_append_singleton,
              length_of_sextets hss]

/-- The reader that ignores the bits after the last byte. -/
def decodeLenient (t : Text) : Except Fault Bytes :=
  if t.length % 4 ≠ 0 then .error .partialBytes
  else if hasFullPad t then .error .tooMuchPadding
  else
    match sextets (unpadded t) with
    | .error fault => .error fault
    | .ok ss => if ss.length % 4 = 1 then .error .excessPadding else .ok (bytesOf ss)

/-- The checks of the lenient reader, on data and padding. -/
theorem decodeLenient_append_pad {d : Text} (hd : d.getLast? ≠ some pad) (n : Nat)
    (hgroups : (d ++ List.replicate n pad).length % 4 = 0) :
    decodeLenient (d ++ List.replicate n pad) =
      if 4 ≤ n then .error .tooMuchPadding
      else (sextets d).bind fun ss =>
        if ss.length % 4 = 1 then .error .excessPadding else .ok (bytesOf ss) := by
  rw [decodeLenient, if_neg (not_not.2 hgroups),
    hasFullPad_append_pad hd n (by simpa using hgroups), unpadded_append_pad hd]
  simp only [decide_eq_true_eq]
  cases sextets d <;> rfl

/-- **Clearing and strict reading is lenient reading**: the checks find the same faults, and the
bytes stay. -/
theorem decode_clearSpareBits (t : Text) : decode (clearSpareBits t) = decodeLenient t := by
  obtain ⟨d, n, rfl, hd⟩ := exists_data t
  obtain ⟨d', hclear, hlen, hd', hss⟩ := exists_clearSpareBits hd n
  rw [hclear, decode, decodeLenient, unpadded_append_pad hd, unpadded_append_pad hd', hss]
  simp only [List.length_append, List.length_replicate, hlen]
  by_cases hgroups : (d.length + n) % 4 = 0
  · rw [hasFullPad_append_pad hd n hgroups, hasFullPad_append_pad hd' n (by rw [hlen, hgroups])]
    cases sextets d with
    | error fault => rfl
    | ok ss => simp [Except.map, leftover_clearLast, bytesOf_clearLast]
  · simp [hgroups]

/-! ### What a text writes -/

/-- The text is letters and at most two units of padding, in whole groups of four, and the bits of
the letters fill the bytes. -/
def Writes (t : Text) (bytes : Bytes) : Prop :=
  t.length % 4 = 0 ∧ ∃ ss : List Sextet, ∃ n ≤ 2,
    t = ss.map letter ++ List.replicate n pad ∧ bytes = Bits.bytes (bits ss)

/-- Letters do not end in padding. -/
theorem getLast?_map_letter (ss : List Sextet) : (ss.map letter).getLast? ≠ some pad := by
  rw [List.getLast?_map]
  intro h
  obtain ⟨s, -, hs⟩ := Option.map_eq_some_iff.1 h
  exact letter_ne_pad s hs

/-- Lenient reading succeeds exactly on the texts that write bytes, with these. -/
theorem decodeLenient_eq_ok_iff {t : Text} {bytes : Bytes} :
    decodeLenient t = .ok bytes ↔ Writes t bytes := by
  constructor
  · intro h
    by_cases hgroups : t.length % 4 = 0
    · obtain ⟨d, n, rfl, hd⟩ := exists_data t
      have hlen : (d.length + n) % 4 = 0 := by simpa using hgroups
      rw [decodeLenient_append_pad hd n hgroups] at h
      split at h
      · cases h
      · next hpad =>
          cases hss : sextets d with
          | error fault =>
              rw [hss] at h
              cases h
          | ok ss =>
              have hcount := length_of_sextets hss
              rw [hss, Except.bind] at h
              split at h
              · cases h
              · next hone =>
                  refine ⟨hgroups, ss, n, by omega, by rw [eq_map_letter_of_sextets hss], ?_⟩
                  rw [← bytesOf_eq]
                  exact (Except.ok.inj h).symm
    · rw [decodeLenient, if_pos hgroups] at h
      cases h
  · rintro ⟨hgroups, ss, n, hn, rfl, rfl⟩
    have hlen : (ss.length + n) % 4 = 0 := by simpa using hgroups
    rw [decodeLenient_append_pad (getLast?_map_letter ss) n hgroups, if_neg (by omega),
      sextets_map_letter, ← bytesOf_eq]
    exact if_neg (by omega)

end Base64

end WireCodec

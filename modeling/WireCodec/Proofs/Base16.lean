import WireCodec.Proofs.Bits

/-
**What a text in base sixteen writes.**

`WireCodec.Base16` reads digit pairs from left to right.  Here the same bytes are described at
once: the text is an even number of digits, each digit stands for four bits, and the bits fill the
bytes.

Main definitions:

* `Base16.digitUnits`, `Base16.smallDigitUnits`: the units that are digits, and those that digits
  are written with;
* `Base16.bits`: the bits of digits, one after another;
* `Base16.Writes`: a text is made of digit pairs that write some bytes.

Main results:

* `Base16.exists_writes_iff`: a text writes bytes if its length is even and it holds no other
  units than `0` to `9`, `a` to `f` and `A` to `F`;
* `Base16.decode_eq_ok_iff`: reading succeeds exactly on the texts that write bytes, with these.
-/

set_option relaxedAutoImplicit false
set_option autoImplicit false

namespace WireCodec

namespace Base16

/-! ### Digits -/

/-- The units that are digits, in order and in both cases. -/
def digitUnits : Text := "0123456789abcdefABCDEF"

/-- The units that digits are written with, in order. -/
def smallDigitUnits : Text := "0123456789abcdef"

theorem mem_digitUnits_of_small {u : CodeUnit} (h : u ∈ smallDigitUnits) : u ∈ digitUnits := by
  have hunits : digitUnits = smallDigitUnits ++ ("ABCDEF" : Text) := by decide
  rw [hunits]
  exact List.mem_append_left _ h

/-- Bytes are written with small letters. -/
theorem mem_smallDigitUnits_of_mem_encode {bytes : Bytes} {u : CodeUnit} (h : u ∈ encode bytes) :
    u ∈ smallDigitUnits := by
  have hunit : ∀ d : Fin 16, unit d ∈ smallDigitUnits := by decide
  obtain ⟨b, -, hb⟩ := List.mem_flatMap.1 h
  simp only [pair, List.mem_cons, List.not_mem_nil, or_false] at hb
  rcases hb with rfl | rfl
  · exact hunit _
  · exact hunit _

theorem isDigit_iff {u : CodeUnit} : isDigit u = true ↔ u ∈ digitUnits := by
  have hunits : digitUnits = [48, 49, 50, 51, 52, 53, 54, 55, 56, 57, 97, 98, 99, 100, 101, 102,
      65, 66, 67, 68, 69, 70] := by decide
  have hmem : u ∈ digitUnits ↔
      (48 ≤ u.toNat ∧ u.toNat ≤ 57) ∨ (65 ≤ u.toNat ∧ u.toNat ≤ 70)
        ∨ (97 ≤ u.toNat ∧ u.toNat ≤ 102) := by
    rw [hunits]
    simp only [List.mem_cons, List.not_mem_nil, or_false, ← UInt16.toNat_inj]
    simp
    omega
  -- the three ranges are those that a digit is read from
  rw [hmem, isDigit, digit?]
  split
  · simp [*]
  · split
    · simp [*]
    · split <;> simp [*]

theorem isDigit_of_digit? {u : CodeUnit} {d : Fin 16} (h : digit? u = some d) :
    isDigit u = true := by
  rw [isDigit, h]
  rfl

/-! ### Digit pairs -/

/-- The bits of digits, one after another. -/
def bits (ds : List (Fin 16)) : List Bool := ds.flatMap fun d => Bits.ofNat 4 d.val

/-- Two digits are the bits of one byte. -/
theorem bits_cons_cons (x y : Fin 16) (ds : List (Fin 16)) :
    bits (x :: y :: ds) = Bits.ofNat 8 (16 * x.val + y.val) ++ bits ds := by
  have hy : y.val < 2 ^ 4 := y.isLt
  rw [bits, List.flatMap_cons, List.flatMap_cons, ← List.append_assoc, Bits.ofNat_append hy,
    Nat.mul_comm x.val]
  rfl

/-- The text is an even number of digits, and their bits fill the bytes. -/
def Writes (t : Text) (bytes : Bytes) : Prop :=
  ∃ ds : List (Fin 16),
    t.map digit? = ds.map some ∧ ds.length % 2 = 0 ∧ bytes = Bits.bytes (bits ds)

@[simp] theorem writes_nil {bytes : Bytes} : Writes [] bytes ↔ bytes = [] := by
  constructor
  · rintro ⟨ds, hds, -, rfl⟩
    cases ds with
    | nil => rfl
    | cons d ds => simp at hds
  · rintro rfl
    exact ⟨[], rfl, rfl, rfl⟩

/-- Digits in front of a text are one byte in front of its bytes. -/
theorem writes_cons_cons {u v : CodeUnit} {t : Text} {bytes : Bytes} :
    Writes (u :: v :: t) bytes ↔ ∃ x y rest, digit? u = some x ∧ digit? v = some y ∧
      Writes t rest ∧ bytes = UInt8.ofNat (16 * x.val + y.val) :: rest := by
  constructor
  · rintro ⟨ds, hds, hlen, rfl⟩
    match ds with
    | [] | [_] => simp at hds
    | x :: y :: ds =>
        simp only [List.map_cons, List.cons.injEq] at hds
        obtain ⟨hx, hy, hds⟩ := hds
        refine ⟨x, y, Bits.bytes (bits ds), hx, hy, ⟨ds, hds, ?_, rfl⟩, ?_⟩
        · simp only [List.length_cons] at hlen
          omega
        · rw [bits_cons_cons, Bits.bytes_ofNat_append]
  · rintro ⟨x, y, rest, hx, hy, ⟨ds, hds, hlen, rfl⟩, rfl⟩
    refine ⟨x :: y :: ds, by simp [hx, hy, hds], ?_, ?_⟩
    · simp only [List.length_cons]
      omega
    · rw [bits_cons_cons, Bits.bytes_ofNat_append]

theorem length_bits (ds : List (Fin 16)) : (bits ds).length = 4 * ds.length :=
  Bits.length_flatMap_ofNat 4 Fin.val ds

/-- There are two digits for each byte. -/
theorem Writes.length_eq {t : Text} {bytes : Bytes} (h : Writes t bytes) :
    t.length = 2 * bytes.length := by
  obtain ⟨ds, hds, hlen, rfl⟩ := h
  have hlen' := congrArg List.length hds
  simp only [List.length_map] at hlen'
  rw [Bits.length_bytes, length_bits]
  omega

/-- A text that writes bytes has an even length. -/
theorem Writes.length_even {t : Text} {bytes : Bytes} (h : Writes t bytes) :
    t.length % 2 = 0 := by
  rw [h.length_eq]
  omega

theorem exists_digits {t : Text} (h : ∀ u ∈ t, isDigit u = true) :
    ∃ ds : List (Fin 16), t.map digit? = ds.map some := by
  induction t with
  | nil => exact ⟨[], rfl⟩
  | cons u t ih =>
      obtain ⟨ds, hds⟩ := ih fun v hv => h v (List.mem_cons_of_mem u hv)
      obtain ⟨d, hd⟩ := Option.isSome_iff_exists.1 (h u List.mem_cons_self)
      exact ⟨d :: ds, by simp [hd, hds]⟩

/-- A text writes bytes if its length is even and it holds digits only. -/
theorem exists_writes_iff {t : Text} :
    (∃ bytes, Writes t bytes) ↔ t.length % 2 = 0 ∧ ∀ u ∈ t, u ∈ digitUnits := by
  simp only [← isDigit_iff]
  constructor
  · rintro ⟨bytes, h⟩
    refine ⟨h.length_even, fun u hu => ?_⟩
    obtain ⟨ds, hds, -, -⟩ := h
    have hmem : digit? u ∈ ds.map some := hds ▸ List.mem_map_of_mem hu
    obtain ⟨d, -, hd⟩ := List.mem_map.1 hmem
    exact isDigit_of_digit? hd.symm
  · rintro ⟨hlen, hdigits⟩
    obtain ⟨ds, hds⟩ := exists_digits hdigits
    have hlen' := congrArg List.length hds
    simp only [List.length_map] at hlen'
    exact ⟨Bits.bytes (bits ds), ds, hds, by omega, rfl⟩

/-! ### Reading -/

/-- From whatever place on, reading succeeds exactly on the texts that write bytes. -/
theorem decodePairs_eq_ok_iff {index : Nat} {t : Text} {bytes : Bytes} :
    decodePairs index t = .ok bytes ↔ Writes t bytes := by
  -- the index only serves the wording of faults
  fun_induction decodePairs index t generalizing bytes with
  | case1 => simp [eq_comm]
  | case2 index u =>
      refine ⟨fun h => by simp at h, fun h => ?_⟩
      have := h.length_even
      simp at this
  | case3 index u v rest x y hy hx ih =>
      rw [writes_cons_cons]
      constructor
      · intro h
        cases hrest : decodePairs (index + 2) rest with
        | error fault => simp [hrest, Except.map] at h
        | ok bs =>
            simp only [hrest, Except.map, Except.ok.injEq] at h
            exact ⟨x, y, bs, hx, hy, ih.1 hrest, h.symm⟩
      · rintro ⟨x', y', bs, hx', hy', hbs, rfl⟩
        obtain rfl : x = x' := Option.some_inj.1 (hx.symm.trans hx')
        obtain rfl : y = y' := Option.some_inj.1 (hy.symm.trans hy')
        rw [ih.2 hbs]
        rfl
  | case4 index u v rest hnone =>
      refine ⟨fun h => by simp at h, fun h => ?_⟩
      obtain ⟨x, y, -, hx, hy, -, -⟩ := writes_cons_cons.1 h
      exact absurd hy (hnone x y hx)

/-- Reading succeeds exactly on the texts that write bytes, with these bytes. -/
theorem decode_eq_ok_iff {t : Text} {bytes : Bytes} : decode t = .ok bytes ↔ Writes t bytes := by
  rw [decode]
  split
  · exact decodePairs_eq_ok_iff
  · next hodd => exact ⟨fun h => by simp at h, fun h => absurd h.length_even hodd⟩

/-- What is written for bytes writes them. -/
theorem writes_encode (bytes : Bytes) : Writes (encode bytes) bytes :=
  decode_eq_ok_iff.1 (decode_encode bytes)

/-- A text writes the bytes of at most one sequence. -/
theorem Writes.unique {t : Text} {bytes bytes' : Bytes} (h : Writes t bytes)
    (h' : Writes t bytes') : bytes = bytes' :=
  Except.ok.inj ((decode_eq_ok_iff.2 h).symm.trans (decode_eq_ok_iff.2 h'))

end Base16

end WireCodec

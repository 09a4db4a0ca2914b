import WireCodec.Decimal

/-
**Base sixteen: two digits for each byte.**

Writing uses the small letters; reading takes letters of either case.  A text that cannot be read
is refused with the first reason found from the left.

Main definitions:

* `Bytes`, `Bytes.same`: a sequence of bytes, and the comparison of two;
* `Base16.digit?`, `Base16.unit`: a digit read and written;
* `Base16.mark`, `Base16.unmarked`: the `0x` in front of digits, and a text without it;
* `Base16.encode`: the text of a sequence of bytes;
* `Base16.decode`: the bytes of a text, or a `Base16.Fault`.
-/

set_option relaxedAutoImplicit false
set_option autoImplicit false

namespace WireCodec

/-- A sequence of bytes. -/
abbrev Bytes := List UInt8

/-- Bytes are the same if they are equally many and agree place by place. -/
def Bytes.same (a b : Bytes) : Bool :=
  a.length == b.length && a.zipIdx.all fun (v, place) => b[place]? == some v

@[simp] theorem Bytes.same_iff {a b : Bytes} : a.same b = true ↔ a = b := by
  simp only [same, Bool.and_eq_true, beq_iff_eq, List.all_eq_true]
  constructor
  · rintro ⟨hlen, hplaces⟩
    refine List.ext_getElem hlen fun place ha hb => ?_
    have hplace := hplaces _ (List.mk_mem_zipIdx_iff_getElem?.2 (List.getElem?_eq_getElem ha))
    rw [List.getElem?_eq_getElem hb] at hplace
    exact (Option.some_inj.1 hplace).symm
  · rintro rfl
    exact ⟨rfl, fun m hm => List.mem_zipIdx_iff_getElem?.1 hm⟩

namespace Base16

/-! ### Digits -/

/-- The value of a base sixteen digit, in either case. -/
def digit? (u : CodeUnit) : Option (Fin 16) :=
  if h : 48 ≤ u.toNat ∧ u.toNat ≤ 57 then some ⟨u.toNat - 48, by omega⟩
  else if h : 65 ≤ u.toNat ∧ u.toNat ≤ 70 then some ⟨u.toNat - 55, by omega⟩
  else if h : 97 ≤ u.toNat ∧ u.toNat ≤ 102 then some ⟨u.toNat - 87, by omega⟩
  else none

/-- The unit that writes a base sixteen digit, in lower case. -/
def unit (d : Fin 16) : CodeUnit :=
  if d.val < 10 then UInt16.ofNat (48 + d.val) else UInt16.ofNat (87 + d.val)

@[simp] theorem digit?_unit (d : Fin 16) : digit? (unit d) = some d := by
  revert d
  decide

/-- A unit that is a base sixteen digit. -/
def isDigit (u : CodeUnit) : Bool := (digit? u).isSome

/-- The mark that may stand in front of base sixteen digits. -/
def mark : Text := "0x"

/-- A text without a mark at its beginning; without one, the text itself. -/
def unmarked (t : Text) : Text := (Text.after? mark t).getD t

/-! ### Writing -/

/-- The two digits of a byte. -/
def pair (b : UInt8) : Text :=
  [unit ⟨b.toNat / 16, by have := b.toNat_lt; omega⟩,
    unit ⟨b.toNat % 16, Nat.mod_lt _ (by omega)⟩]

/-- Each byte as its two digits. -/
def encode (bytes : Bytes) : Text := bytes.flatMap pair

@[simp] theorem length_encode (bytes : Bytes) : (encode bytes).length = 2 * bytes.length := by
  induction bytes with
  | nil => rfl
  | cons b bytes ih =>
      rw [encode] at ih ⊢
      simp only [List.flatMap_cons, List.length_append, List.length_cons, ih, pair, List.length_nil]
      omega

/-! ### Reading -/

/-- Why a text is not a sequence of digit pairs. -/
inductive Fault where
  /-- The text has an odd number of units, so that one is left without a partner. -/
  | unpaired (length : Nat)
  /-- The pair at `index` holds a unit that is not a digit. -/
  | notDigits (first second : CodeUnit) (index : Nat)
  deriving DecidableEq, Repr

/-- The wording of a fault. -/
def Fault.message : Fault → Text
  | .unpaired length =>
      Text.concat ["hex string expected, got unpadded hex of length ", Decimal.text length]
  | .notDigits first second index =>
      Text.concat ["hex string expected, got non-hex character \"", [first, second],
        "\" at index ", Decimal.text index]

/-- The bytes of the digit pairs of a text, the first of which stands at `index`. -/
def decodePairs (index : Nat) : Text → Except Fault Bytes
  | [] => .ok []
  | [_] => .error (.unpaired (index + 1))
  | u :: v :: rest =>
      match digit? u, digit? v with
      | some x, some y =>
          (decodePairs (index + 2) rest).map (UInt8.ofNat (16 * x.val + y.val) :: ·)
      | _, _ => .error (.notDigits u v index)

/-- The bytes that a text of digit pairs writes.  An odd length is noticed before any digit. -/
def decode (t : Text) : Except Fault Bytes :=
  if t.length % 2 = 0 then decodePairs 0 t else .error (.unpaired t.length)

/-- What is written is read back, from whatever place on. -/
theorem decodePairs_encode (index : Nat) (bytes : Bytes) :
    decodePairs index (encode bytes) = .ok bytes := by
  induction bytes generalizing index with
  | nil => rfl
  | cons b bytes ih =>
      have hb : UInt8.ofNat (16 * (b.toNat / 16) + b.toNat % 16) = b := by
        rw [Nat.div_add_mod, UInt8.ofNat_toNat]
      have ih' := ih (index + 2)
      rw [encode] at ih'
      rw [encode, List.flatMap_cons]
      simp only [pair, List.cons_append, List.nil_append, decodePairs, digit?_unit, ih', hb]
      rfl

/-- What is written is read back. -/
@[simp] theorem decode_encode (bytes : Bytes) : decode (encode bytes) = .ok bytes := by
  rw [decode, length_encode, if_pos (by omega), decodePairs_encode]

end Base16

end WireCodec

import Mathlib.Algebra.Group.Nat.Defs
import WireCodec.Base16

/-
**Bits and the bytes they fill.**

A unit of a text in base sixteen stands for four bits and one in base sixty-four for six.  What
bytes such a text writes is then one rule for both bases: the bits are put one after another and
cut into whole bytes, and what does not fill a byte is dropped.

Main definitions:

* `Bits.ofNat`: the last bits of a number, the most significant first;
* `Bits.number`: the number that bits denote;
* `Bits.bytes`: the whole bytes of a sequence of bits.

Main results:

* `Bits.ofNat_append`: bits one after another are the bits of a joint number;
* `Bits.bytes_ofNat_append`: the first eight bits are the first byte;
* `Bits.length_bytes`: there are as many bytes as fit.
-/

set_option relaxedAutoImplicit false
set_option autoImplicit false

namespace WireCodec

namespace Bits

/-! ### Bits of numbers -/

/-- The last `width` bits of a number, the most significant first. -/
def ofNat (width n : Nat) : List Bool :=
  match width with
  | 0 => []
  | width + 1 => n.testBit width :: ofNat width n

/-- The number that bits denote, the most significant first. -/
def number : List Bool → Nat
  | [] => 0
  | b :: bits => b.toNat * 2 ^ bits.length + number bits

@[simp] theorem length_ofNat (width n : Nat) : (ofNat width n).length = width := by
  induction width with
  | zero => rfl
  | succ width ih => simp [ofNat, ih]

/-- Numbers of one width, one after another, have that many bits each. -/
theorem length_flatMap_ofNat {α : Type} (width : Nat) (f : α → Nat) (l : List α) :
    (l.flatMap fun a => ofNat width (f a)).length = width * l.length := by
  induction l with
  | nil => rfl
  | cons a l ih =>
      rw [List.flatMap_cons, List.length_append, length_ofNat, ih, List.length_cons, Nat.mul_succ]
      omega

/-- Bits of a number denote what is left of the number. -/
theorem number_ofNat (width n : Nat) : number (ofNat width n) = n % 2 ^ width := by
  induction width with
  | zero => simp [ofNat, number, Nat.mod_one]
  | succ width ih =>
      rw [ofNat, number, ih, length_ofNat, Nat.toNat_testBit, Nat.mod_pow_succ]
      ac_rfl

/-- Only what is left of a number decides about its last bits. -/
theorem ofNat_mod (width n : Nat) : ofNat width (n % 2 ^ width) = ofNat width n := by
  -- induction on the bits that are read, while the number of bits that are left stays
  suffices h : ∀ k ≤ width, ofNat k (n % 2 ^ width) = ofNat k n from h width (Nat.le_refl _)
  intro k hk
  induction k with
  | zero => rfl
  | succ k ih =>
      have hwidth : k < width := by omega
      rw [ofNat, ofNat, ih (by omega), Nat.testBit_mod_two_pow, decide_eq_true hwidth,
        Bool.true_and]

/-- Bits of a number are bits of its upper part followed by bits of its lower part. -/
theorem ofNat_add (m width n : Nat) :
    ofNat (m + width) n = ofNat m (n / 2 ^ width) ++ ofNat width n := by
  induction m with
  | zero => simp [ofNat]
  | succ m ih =>
      rw [Nat.succ_add, ofNat, ofNat, ih, Nat.testBit_div_two_pow]
      rfl

/-- Bits one after another are the bits of a joint number. -/
theorem ofNat_append {width y : Nat} (hy : y < 2 ^ width) (m x : Nat) :
    ofNat m x ++ ofNat width y = ofNat (m + width) (x * 2 ^ width + y) := by
  have hupper : (x * 2 ^ width + y) / 2 ^ width = x := by
    rw [Nat.mul_comm, Nat.mul_add_div (Nat.two_pow_pos width), Nat.div_eq_of_lt hy, Nat.add_zero]
  have hlower : (x * 2 ^ width + y) % 2 ^ width = y := by
    rw [Nat.mul_comm, Nat.mul_add_mod, Nat.mod_eq_of_lt hy]
  rw [ofNat_add, hupper, ← ofNat_mod width (x * 2 ^ width + y), hlower]

theorem ofNat_zero (width : Nat) : ofNat width 0 = List.replicate width false := by
  induction width with
  | zero => rfl
  | succ width ih => rw [ofNat, ih, Nat.zero_testBit, List.replicate_succ]

/-! ### Bytes of bits -/

/-- The whole bytes of a sequence of bits.  Fewer than eight bits at the end are dropped. -/
def bytes : List Bool → Bytes
  | b₇ :: b₆ :: b₅ :: b₄ :: b₃ :: b₂ :: b₁ :: b₀ :: rest =>
      UInt8.ofNat (number [b₇, b₆, b₅, b₄, b₃, b₂, b₁, b₀]) :: bytes rest
  | _ => []

/-- The first eight bits are the first byte. -/
theorem bytes_ofNat_append (n : Nat) (rest : List Bool) :
    bytes (ofNat 8 n ++ rest) = UInt8.ofNat n :: bytes rest := by
  have hn : UInt8.ofNat (number (ofNat 8 n)) = UInt8.ofNat n := by
    rw [number_ofNat]
    exact UInt8.toNat_inj.1 (by simp)
  rw [← hn]
  rfl

/-- Fewer than eight bits fill no byte. -/
theorem bytes_of_length_lt {bits : List Bool} (h : bits.length < 8) : bytes bits = [] := by
  match bits with
  | [] | [_] | [_, _] | [_, _, _] | [_, _, _, _] | [_, _, _, _, _] | [_, _, _, _, _, _]
  | [_, _, _, _, _, _, _] => rfl
  | _ :: _ :: _ :: _ :: _ :: _ :: _ :: _ :: rest => simp at h; omega

/-- There are as many bytes as fit into the bits. -/
theorem length_bytes (bits : List Bool) : (bytes bits).length = bits.length / 8 := by
  fun_induction bytes bits with
  | case1 b₇ b₆ b₅ b₄ b₃ b₂ b₁ b₀ rest ih => simp only [List.length_cons, ih]; omega
  | case2 bits hshort =>
      match bits with
      | [] | [_] | [_, _] | [_, _, _] | [_, _, _, _] | [_, _, _, _, _] | [_, _, _, _, _, _]
      | [_, _, _, _, _, _, _] => simp
      | b₇ :: b₆ :: b₅ :: b₄ :: b₃ :: b₂ :: b₁ :: b₀ :: rest =>
          exact absurd rfl (hshort b₇ b₆ b₅ b₄ b₃ b₂ b₁ b₀ rest)

end Bits

end WireCodec

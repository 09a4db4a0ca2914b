import Mathlib.Algebra.Group.Int.Defs
import Mathlib.Algebra.Group.Nat.Defs
import WireCodec.Binary64

/-
**Which double precision numbers are integers.**

The exact value of a finite number is its mantissa times a power of two, with its sign.  It is an
integer if the power clears the denominator, and then the integer part is all of it.

Main definitions:

* `Binary64.Denotes`: the exact value of a number is an integer.

Main results:

* `Binary64.denotes_iff`: the value is an integer if nothing is cut off, and then it is the integer
  part;
* `Binary64.isSafeInteger_iff`: the safe integers are those of at most 53 bits.
-/

set_option relaxedAutoImplicit false
set_option autoImplicit false

namespace WireCodec

namespace Binary64

/-- The exact value of the number is the integer.  Both are multiplied by the denominator. -/
def Denotes : Binary64 → Int → Prop
  | .finite negative m e, i =>
      (if negative then -(m : Int) else (m : Int)) * 2 ^ e.toNat = i * 2 ^ (-e).toNat
  | _, _ => False

instance (x : Binary64) (i : Int) : Decidable (x.Denotes i) :=
  match x with
  | .finite negative m e =>
      inferInstanceAs <| Decidable <|
        (if negative then -(m : Int) else (m : Int)) * 2 ^ e.toNat = i * 2 ^ (-e).toNat
  | .nan | .infinite _ => .isFalse id

theorem twoTo_eq (n : Nat) : twoTo n = 2 ^ n := rfl

theorem twoTo_pos (n : Nat) : 0 < twoTo n := Nat.two_pow_pos n

/-- Either the number is multiplied or it is divided. -/
theorem twoTo_eq_one (e : Int) : twoTo e.toNat = 1 ∨ twoTo (-e).toNat = 1 := by
  rcases Int.le_total e 0 with he | he
  · left
    rw [Int.toNat_of_nonpos he]
    rfl
  · right
    rw [Int.toNat_of_nonpos (by omega)]
    rfl

section

variable {negative : Bool} {m : Nat} {e : Int}

/-- What denotes an integer has no fractional part. -/
theorem isIntegral_of_mul_eq {k : Nat} (h : m * twoTo e.toNat = k * twoTo (-e).toNat) :
    (finite negative m e).isIntegral = true := by
  have hmod : m % twoTo (-e).toNat = 0 := by
    rcases twoTo_eq_one e with hone | hone
    · rw [hone, Nat.mul_one] at h
      rw [h, Nat.mul_mod_left]
    · rw [hone, Nat.mod_one]
  simp [isIntegral, hmod]

/-- Without a fractional part nothing is cut off. -/
theorem magnitude_mul (h : (finite negative m e).isIntegral = true) :
    (finite negative m e).magnitude * twoTo (-e).toNat = m * twoTo e.toNat := by
  have hdvd : twoTo (-e).toNat ∣ m := Nat.dvd_of_mod_eq_zero (by simpa [isIntegral] using h)
  rw [magnitude]
  exact Nat.div_mul_cancel (Nat.dvd_mul_right_of_dvd hdvd _)

theorem truncate_mul (h : (finite negative m e).isIntegral = true) :
    (finite negative m e).truncate * (2 : Int) ^ (-e).toNat =
      (if negative then -(m : Int) else (m : Int)) * 2 ^ e.toNat := by
  have hmul : ((finite negative m e).magnitude : Int) * 2 ^ (-e).toNat = m * 2 ^ e.toNat := by
    exact_mod_cast magnitude_mul h
  cases negative with
  | true =>
      simp only [truncate, isNegative, if_true]
      rw [Int.neg_mul, hmul, Int.neg_mul]
  | false =>
      simp only [truncate, isNegative, Bool.false_eq_true, if_false]
      exact hmul

end

/-- **The value is an integer if nothing is cut off, and then it is the integer part.** -/
theorem denotes_iff {x : Binary64} {i : Int} :
    x.Denotes i ↔ x.isIntegral = true ∧ x.truncate = i := by
  cases x with
  | nan => simp [Denotes, isIntegral]
  | infinite negative => simp [Denotes, isIntegral]
  | finite negative m e =>
      have hpos : (2 : Int) ^ (-e).toNat ≠ 0 := Int.ne_of_gt (Int.pow_pos (by decide))
      rw [Denotes]
      constructor
      · intro h
        have habs := congrArg Int.natAbs h
        have hintegral : (finite negative m e).isIntegral = true := by
          refine isIntegral_of_mul_eq (k := i.natAbs) ?_
          cases negative <;> simpa [Int.natAbs_mul, Int.natAbs_pow, twoTo_eq] using habs
        refine ⟨hintegral, ?_⟩
        rw [← truncate_mul hintegral] at h
        exact Int.eq_of_mul_eq_mul_right hpos h
      · rintro ⟨hintegral, rfl⟩
        exact (truncate_mul hintegral).symm

theorem natAbs_truncate (x : Binary64) : x.truncate.natAbs = x.magnitude := by
  rw [truncate]
  split <;> simp

/-- **The safe integers are those of at most 53 bits.** -/
theorem isSafeInteger_iff {x : Binary64} :
    x.isSafeInteger = true ↔ ∃ i, x.Denotes i ∧ i.natAbs ≤ 2 ^ 53 - 1 := by
  have hmax : maxSafe = 2 ^ 53 - 1 := rfl
  rw [isSafeInteger, Bool.and_eq_true, decide_eq_true_eq, ← natAbs_truncate, hmax]
  constructor
  · rintro ⟨hintegral, hle⟩
    exact ⟨x.truncate, denotes_iff.2 ⟨hintegral, rfl⟩, hle⟩
  · rintro ⟨i, hi, hle⟩
    obtain ⟨hintegral, rfl⟩ := denotes_iff.1 hi
    exact ⟨hintegral, hle⟩

end Binary64

end WireCodec

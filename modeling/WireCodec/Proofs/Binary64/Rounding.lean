import Mathlib.Algebra.Order.Ring.Int
import Mathlib.Tactic.Linarith
import Mathlib.Tactic.Ring
import WireCodec.Proofs.Binary64
import WireCodec.Proofs.Decimal

/-
**Rounding to the nearest double precision number.**

`Binary64.ofQuotient` finds the power of two under a quotient, divides by the unit in the last place
and rounds to an integer.  Here its outcome is described without any of these steps: no number of
the format is nearer to the quotient, and of two that are equally near the one with an even mantissa
is taken.  To stay with integers, every finite number is counted in units of the least positive one,
`2 ^ (-1074)`, and the distance to a quotient is multiplied by its denominator.

Two kinds of numbers compete with the one that is taken.  Those with the same or a greater exponent
are multiples of the unit in the last place, and the integer was the nearest.  Those with a lower
exponent are below `2 ^ 52` units in the last place, which is a multiple itself and lies between
them and the quotient.

Main definitions:

* `Binary64.InFormat`: the finite numbers that there are;
* `Binary64.units`, `Binary64.distance`: the value of a number and its distance to a quotient, as
  integers;
* `Binary64.RoundsTo`: the nearest number to a quotient, ties to even, or an infinity.

Main results:

* `Binary64.roundQuotient_nearest`: the nearest integer;
* `Binary64.below_floorLog2`: the power of two under a quotient;
* `Binary64.roundsTo_ofQuotient`, `Binary64.roundsTo_ofDecimal`: **quotients and decimals are
  rounded to the nearest number**.
-/

set_option relaxedAutoImplicit false
set_option autoImplicit false

namespace WireCodec

namespace Binary64

/-! ### The numbers of the format -/

/-- The finite numbers that there are: mantissas of 53 bits and exponents in their range. -/
def InFormat : Binary64 → Prop
  | .finite _ m e => m < 2 ^ 53 ∧ minExponent ≤ e ∧ e ≤ maxExponent
  | _ => False

/-- The unit in the last place for an exponent, counted in units for the least exponent. -/
def ulp (e : Int) : Nat := 2 ^ (e - minExponent).toNat

/-- The value of a finite number, counted in units for the least exponent. -/
def units : Binary64 → Int
  | .finite negative m e => (if negative then -(m : Int) else (m : Int)) * ulp e
  | _ => 0

/-- How far a number is from `n / d`: the difference in units, times `d`. -/
def distance (x : Binary64) (n d : Nat) : Nat := (x.units * d - (n : Int) * ulp 0).natAbs

/-- Halfway between the greatest finite number and the number that would follow it. -/
def overflowBound : Nat := (2 ^ 54 - 1) * 2 ^ 970

/-- The number nearest to `n / d`.  Another number is equally near only if the mantissa is even, and
from halfway past the greatest finite number on it is infinite. -/
inductive RoundsTo (n d : Nat) : Binary64 → Prop where
  | finite {m : Nat} {e : Int} (hformat : (Binary64.finite false m e).InFormat)
      (hcanonical : 2 ^ 52 ≤ m ∨ e = minExponent) (hbound : n < overflowBound * d)
      (hnearest : ∀ y : Binary64, y.InFormat →
        (Binary64.finite false m e).distance n d ≤ y.distance n d)
      (htie : ∀ y : Binary64, y.InFormat →
        y.distance n d = (Binary64.finite false m e).distance n d →
          y.units = (Binary64.finite false m e).units ∨ m % 2 = 0) :
      RoundsTo n d (.finite false m e)
  | infinite (hbound : overflowBound * d ≤ n) : RoundsTo n d (.infinite false)

/-! ### The nearest integer -/

section

variable {n d : Nat} (hd : 0 < d)
include hd

/-- The integer is at most half away, and it is even if it is exactly half away. -/
theorem roundQuotient_near :
    2 * ((roundQuotient n d : Int) * d - n).natAbs ≤ d ∧
      (2 * ((roundQuotient n d : Int) * d - n).natAbs = d → roundQuotient n d % 2 = 0) := by
  have hn : (n / d : Nat) * d + n % d = n := Nat.div_add_mod' n d
  have hlt := Nat.mod_lt n hd
  have hsucc : ((n / d : Nat) + 1) * d = n / d * d + d := Nat.succ_mul _ _
  have hcast : ∀ q : Nat, ((q : Int) * d - n).natAbs = ((q * d : Nat) - (n : Int)).natAbs := by
    intro q
    rw [Nat.cast_mul]
  simp only [roundQuotient, hcast]
  split
  · omega
  · split
    · omega
    · rcases Nat.mod_two_eq_zero_or_one (n / d) with heven | hodd
      · rw [heven, Nat.add_zero]
        omega
      · rw [hodd]
        omega

/-- **No integer is nearer**, and another one is equally near only if this one is even. -/
theorem roundQuotient_nearest (j : Int) :
    ((roundQuotient n d : Int) * d - n).natAbs ≤ (j * d - n).natAbs ∧
      ((j * d - n).natAbs = ((roundQuotient n d : Int) * d - n).natAbs →
        j = roundQuotient n d ∨ roundQuotient n d % 2 = 0) := by
  obtain ⟨hnear, heven⟩ := roundQuotient_near (n := n) hd
  by_cases hj : j = roundQuotient n d
  · rw [hj]
    exact ⟨le_rfl, fun _ => .inl rfl⟩
  · -- two integers differ by a whole denominator at least
    have hgap : d ≤ ((j - roundQuotient n d) * d).natAbs := by
      rw [Int.natAbs_mul, Int.natAbs_natCast]
      exact Nat.le_mul_of_pos_left d (Int.natAbs_pos.2 (sub_ne_zero.2 hj))
    rw [Int.sub_mul] at hgap
    omega

theorem roundQuotient_le {k : Nat} (h : n < k * d) : roundQuotient n d ≤ k := by
  obtain ⟨hnear, -⟩ := roundQuotient_near (n := n) hd
  have hle : roundQuotient n d * d < (k + 1) * d := by
    rw [Nat.succ_mul]
    zify at h ⊢
    omega
  exact Nat.lt_succ_iff.1 (Nat.lt_of_mul_lt_mul_right hle)

theorem le_roundQuotient {k : Nat} (h : k * d ≤ n) : k ≤ roundQuotient n d := by
  obtain ⟨hnear, -⟩ := roundQuotient_near (n := n) hd
  have hlt : k * d < (roundQuotient n d + 1) * d := by
    rw [Nat.succ_mul]
    zify at h ⊢
    omega
  exact Nat.lt_succ_iff.1 (Nat.lt_of_mul_lt_mul_right hlt)

/-- An even integer above the quotient is taken from halfway below it on. -/
theorem roundQuotient_eq_iff {k : Nat} (hk : k % 2 = 0) (h : n < k * d) :
    roundQuotient n d = k ↔ 2 * (k * d) ≤ 2 * n + d := by
  obtain ⟨hnear, heven⟩ := roundQuotient_near (n := n) hd
  constructor
  · rintro rfl
    zify
    omega
  · intro hhalf
    rcases Nat.lt_or_eq_of_le (roundQuotient_le hd h) with hlt | heq
    · -- the integer before would be odd and exactly halfway
      exfalso
      have hle : (roundQuotient n d + 1) * d ≤ k * d := Nat.mul_le_mul_right d hlt
      rw [Nat.succ_mul] at hle
      zify at hle hhalf
      have hprod : (roundQuotient n d + 1) * d = k * d := by
        rw [Nat.succ_mul]
        zify
        omega
      have hnext := Nat.eq_of_mul_eq_mul_right hd hprod
      omega
    · exact heq

end

/-! ### Powers of two around a quotient -/

/-- The quotient `n / d` is below `2 ^ a`. -/
def Below (n d : Nat) (a : Int) : Prop := n * twoTo (-a).toNat < d * twoTo a.toNat

section

variable {n d : Nat} {a b : Int}

/-- The power of two may be written as any quotient of powers. -/
theorem below_iff {p q : Nat} (h : (q : Int) - p = a) : Below n d a ↔ n * 2 ^ p < d * 2 ^ q := by
  obtain ⟨c, hp, hq⟩ : ∃ c, p = (-a).toNat + c ∧ q = a.toNat + c := ⟨p - (-a).toNat, by omega⟩
  rw [Below, twoTo_eq, twoTo_eq, hp, hq, pow_add, pow_add, ← mul_assoc, ← mul_assoc]
  exact (Nat.mul_lt_mul_right (Nat.two_pow_pos c)).symm

theorem Below.mono (h : Below n d a) (hab : a ≤ b) : Below n d b := by
  obtain ⟨c, rfl⟩ := Int.le.dest hab
  rw [below_iff (p := (-a).toNat) (q := a.toNat + c) (by omega), pow_add, ← mul_assoc]
  exact Nat.lt_of_lt_of_le h (Nat.le_mul_of_pos_right _ (Nat.two_pow_pos c))

variable (hn : 0 < n) (hd : 0 < d)
include hn hd

/-- The numbers of bits tell the power of two up to a factor of two. -/
theorem below_log2_sub_log2 :
    Below n d ((n.log2 : Int) - d.log2 + 1) ∧ ¬ Below n d ((n.log2 : Int) - d.log2 - 1) := by
  have hnle := Nat.log2_self_le hn.ne'
  have hnlt := Nat.lt_log2_self (n := n)
  have hdle := Nat.log2_self_le hd.ne'
  have hdlt := Nat.lt_log2_self (n := d)
  constructor
  · rw [below_iff (p := d.log2) (q := n.log2 + 1) (by omega)]
    calc n * 2 ^ d.log2 < 2 ^ (n.log2 + 1) * 2 ^ d.log2 :=
          Nat.mul_lt_mul_of_pos_right hnlt (Nat.two_pow_pos _)
      _ ≤ 2 ^ (n.log2 + 1) * d := Nat.mul_le_mul_left _ hdle
      _ = d * 2 ^ (n.log2 + 1) := Nat.mul_comm _ _
  · rw [below_iff (p := d.log2 + 1) (q := n.log2) (by omega), Nat.not_lt]
    calc d * 2 ^ n.log2 ≤ 2 ^ (d.log2 + 1) * 2 ^ n.log2 := Nat.mul_le_mul_right _ hdlt.le
      _ ≤ 2 ^ (d.log2 + 1) * n := Nat.mul_le_mul_left _ hnle
      _ = n * 2 ^ (d.log2 + 1) := Nat.mul_comm _ _

/-- **The power of two under the quotient.** -/
theorem below_floorLog2 : Below n d (floorLog2 n d + 1) ∧ ¬ Below n d (floorLog2 n d) := by
  obtain ⟨hbelow, habove⟩ := below_log2_sub_log2 hn hd
  rw [floorLog2]
  split
  · next hle => exact ⟨hbelow, Nat.not_lt.2 hle⟩
  · next hlt =>
      rw [Int.sub_add_cancel]
      exact ⟨Nat.not_le.1 hlt, habove⟩

end

/-! ### The exponent of a quotient -/

theorem ulp_pos (e : Int) : 0 < ulp e := Nat.two_pow_pos _

/-- A greater exponent counts in multiples. -/
theorem ulp_add {e : Int} (he : minExponent ≤ e) (c : Nat) : ulp (e + c) = 2 ^ c * ulp e := by
  rw [ulp, ulp, ← pow_add]
  congr 1
  omega

/-- Counting in units in the last place or in integers is a matter of the exponent. -/
theorem ulp_zero_mul {e : Int} (he : minExponent ≤ e) :
    ulp 0 * twoTo e.toNat = ulp e * twoTo (-e).toNat := by
  have hmin : minExponent = -1074 := rfl
  rw [ulp, ulp, twoTo_eq, twoTo_eq, ← pow_add, ← pow_add]
  congr 1
  omega

/-- The exponent with which `n / d` has 53 digits before the point, or the least one if it has not
as many. -/
structure IsExponent (n d : Nat) (e : Int) : Prop where
  le : minExponent ≤ e
  below : Below n d (e + 53)
  least_or_above : e = minExponent ∨ ¬ Below n d (e + 52)

theorem isExponent_max {n d : Nat} (hn : 0 < n) (hd : 0 < d) :
    IsExponent n d (max (floorLog2 n d - (precision - 1)) minExponent) where
  le := le_max_right _ _
  below := by
    have hprecision : (precision : Int) = 53 := rfl
    exact (below_floorLog2 hn hd).1.mono (by omega)
  least_or_above := by
    have hprecision : (precision : Int) = 53 := rfl
    rcases max_choice (floorLog2 n d - (precision - 1)) minExponent with hmax | hmax
    · rw [hmax]
      refine .inr fun hbelow => (below_floorLog2 hn hd).2 (hbelow.mono ?_)
      omega
    · exact .inl hmax

namespace IsExponent

variable {n d : Nat} {e : Int} (h : IsExponent n d e)
include h

/-- The quotient in units in the last place is below `2 ^ 53`. -/
theorem lt : n * twoTo (-e).toNat < 2 ^ 53 * (d * twoTo e.toNat) := by
  have hlt := (below_iff (p := (-e).toNat) (q := e.toNat + 53) (by omega)).1 h.below
  rw [pow_add, ← mul_assoc] at hlt
  rwa [mul_comm (2 ^ 53)]

/-- It has 53 digits if the exponent is not the least one. -/
theorem ge (hne : e ≠ minExponent) : 2 ^ 52 * (d * twoTo e.toNat) ≤ n * twoTo (-e).toNat := by
  have hnot := h.least_or_above.resolve_left hne
  rw [below_iff (p := (-e).toNat) (q := e.toNat + 52) (by omega), Nat.not_lt, pow_add,
    ← mul_assoc] at hnot
  rwa [mul_comm]

end IsExponent

/-! ### The competing numbers -/

/-- A number of the format is a multiple of the unit in the last place, or it is below `2 ^ 52`
such units and has a lower exponent. -/
theorem InFormat.units_cases {y : Binary64} (hy : y.InFormat) {e : Int} (he : minExponent ≤ e) :
    (∃ j : Int, y.units = j * ulp e) ∨ (e ≠ minExponent ∧ y.units < 2 ^ 52 * ulp e) := by
  cases y with
  | nan | infinite => cases hy
  | finite negative m f =>
      obtain ⟨hm, hf, -⟩ := hy
      rw [units]
      rcases Int.lt_or_le f e with hfe | hef
      · obtain ⟨c, hc⟩ := Int.le.dest (Int.add_one_le_of_lt hfe)
        obtain rfl : f + ((c + 1 : Nat) : Int) = e := by omega
        refine .inr ⟨by omega, ?_⟩
        rw [ulp_add hf]
        have hle : (if negative then -(m : Int) else (m : Int)) ≤ m := by split <;> omega
        have hpos : (0 : Int) < ulp f := by exact_mod_cast ulp_pos f
        have hpow : (2 : Int) ≤ 2 ^ (c + 1) := by
          rw [pow_succ]
          have := Int.pow_pos (n := 2) (m := c) (by decide)
          omega
        calc (if negative then -(m : Int) else (m : Int)) * ulp f ≤ m * ulp f :=
              Int.mul_le_mul_of_nonneg_right hle hpos.le
          _ < 2 ^ 53 * ulp f := Int.mul_lt_mul_of_pos_right (by exact_mod_cast hm) hpos
          _ = 2 ^ 52 * (2 * ulp f) := by ring
          _ ≤ 2 ^ 52 * ((2 ^ (c + 1) : Nat) * ulp f : Nat) := by
              push_cast
              exact Int.mul_le_mul_of_nonneg_left
                (Int.mul_le_mul_of_nonneg_right hpow hpos.le) (by decide)
      · obtain ⟨c, rfl⟩ := Int.le.dest hef
        refine .inl ⟨(if negative then -(m : Int) else (m : Int)) * 2 ^ c, ?_⟩
        rw [ulp_add he, Nat.cast_mul, mul_assoc]
        norm_cast

section

variable {n d : Nat} {e : Int}

/-- The distance in units in the last place, over the denominator that belongs to the exponent. -/
theorem distance_mul (he : minExponent ≤ e) (y : Binary64) :
    y.distance n d * twoTo e.toNat =
      (y.units * (d * twoTo e.toNat : Nat) - (n * twoTo (-e).toNat : Nat) * ulp e).natAbs := by
  have hulp : (ulp 0 : Int) * twoTo e.toNat = ulp e * twoTo (-e).toNat := by
    exact_mod_cast ulp_zero_mul he
  rw [distance, ← Int.natAbs_natCast (twoTo e.toNat), ← Int.natAbs_mul, Int.sub_mul,
    Int.natAbs_natCast, mul_assoc (n : Int), hulp]
  congr 1
  push_cast
  ring

/-- Multiples of the unit in the last place are compared by their factors. -/
theorem distance_mul_of_units (he : minExponent ≤ e) {y : Binary64} {j : Int}
    (hy : y.units = j * ulp e) :
    y.distance n d * twoTo e.toNat =
      (j * (d * twoTo e.toNat : Nat) - (n * twoTo (-e).toNat : Nat)).natAbs * ulp e := by
  rw [distance_mul he, hy, ← Int.natAbs_natCast (ulp e), ← Int.natAbs_mul, Int.natAbs_natCast]
  congr 1
  ring

/-- What is below `2 ^ 52` units in the last place is farther away than these, if the quotient is
not. -/
theorem lt_distance_of_units_lt (he : minExponent ≤ e) (hd : 0 < d) {y : Binary64}
    (hge : 2 ^ 52 * (d * twoTo e.toNat) ≤ n * twoTo (-e).toNat)
    (hy : y.units < 2 ^ 52 * ulp e) :
    ((2 ^ 52 : Int) * (d * twoTo e.toNat : Nat) - (n * twoTo (-e).toNat : Nat)).natAbs * ulp e <
      y.distance n d * twoTo e.toNat := by
  have hD : 0 < d * twoTo e.toNat := Nat.mul_pos hd (twoTo_pos _)
  rw [distance_mul he]
  generalize d * twoTo e.toNat = D at *
  generalize n * twoTo (-e).toNat = N at *
  have hscaled : y.units * D < 2 ^ 52 * D * ulp e := by
    have hlt := Int.mul_lt_mul_of_pos_right hy (Int.natCast_pos.2 hD)
    linarith
  have habove : (2 : Int) ^ 52 * D ≤ N := by exact_mod_cast hge
  zify
  rw [abs_of_nonpos (by linarith), abs_of_neg (by nlinarith [ulp_pos e])]
  linarith

/-- **No number of the format is nearer than the multiple nearest to the quotient**, and another
number is equally near only if the factor is even. -/
theorem IsExponent.nearest (h : IsExponent n d e) (hd : 0 < d) {m : Nat}
    (hm : m = roundQuotient (n * twoTo (-e).toNat) (d * twoTo e.toNat)) {x : Binary64}
    (hx : x.units = m * ulp e) {y : Binary64} (hy : y.InFormat) :
    x.distance n d ≤ y.distance n d ∧
      (y.distance n d = x.distance n d → y.units = x.units ∨ m % 2 = 0) := by
  have hD : 0 < d * twoTo e.toNat := Nat.mul_pos hd (twoTo_pos _)
  have hP : 0 < twoTo e.toNat := twoTo_pos _
  have hU := ulp_pos e
  have hxdistance := distance_mul_of_units (n := n) (d := d) h.le hx
  rcases hy.units_cases h.le with ⟨j, hj⟩ | ⟨hne, hlt⟩
  · -- two multiples
    obtain ⟨hnear, htie⟩ := roundQuotient_nearest (n := n * twoTo (-e).toNat) hD j
    rw [← hm] at hnear htie
    have hydistance := distance_mul_of_units (n := n) (d := d) h.le hj
    constructor
    · refine Nat.le_of_mul_le_mul_right ?_ hP
      rw [hxdistance, hydistance]
      exact Nat.mul_le_mul_right _ hnear
    · intro heq
      rw [heq, hxdistance] at hydistance
      have hfactors := Nat.eq_of_mul_eq_mul_right hU hydistance
      refine (htie hfactors.symm).imp_left fun hjm => ?_
      rw [hj, hx, hjm]
  · -- a number of a lower exponent
    obtain ⟨hnear, -⟩ := roundQuotient_nearest (n := n * twoTo (-e).toNat) hD (2 ^ 52)
    rw [← hm] at hnear
    have hfar := lt_distance_of_units_lt h.le hd (h.ge hne) hlt
    have hstrict : x.distance n d < y.distance n d := by
      refine Nat.lt_of_mul_lt_mul_right (a := twoTo e.toNat) ?_
      rw [hxdistance]
      exact Nat.lt_of_le_of_lt (Nat.mul_le_mul_right _ hnear) hfar
    exact ⟨hstrict.le, fun heq => absurd heq hstrict.ne'⟩

end

/-! ### Overflow -/

theorem below_natCast_iff {n d : Nat} (a : Nat) : Below n d a ↔ n < d * 2 ^ a := by
  rw [below_iff (p := 0) (q := a) (by omega), pow_zero, mul_one]

theorem overflowBound_pos : 0 < overflowBound := by
  rw [overflowBound]
  positivity

/-- The next power of two is above the bound, and the one before is below. -/
theorem overflowBound_between : 2 ^ 1023 ≤ overflowBound ∧ overflowBound ≤ 2 ^ 1024 := by
  have hlow : 2 ^ 1023 = 2 ^ 53 * 2 ^ 970 := by rw [← pow_add]
  have hhigh : 2 ^ 1024 = 2 ^ 54 * 2 ^ 970 := by rw [← pow_add]
  rw [overflowBound, hlow, hhigh]
  exact ⟨Nat.mul_le_mul_right _ (by decide), Nat.mul_le_mul_right _ (by decide)⟩

/-- A quotient is past the bound if its exponent is too great, perhaps after rounding up. -/
theorem IsExponent.overflow_iff {n d : Nat} {e : Int} (h : IsExponent n d e) (hd : 0 < d) {m : Nat}
    (hm : m = roundQuotient (n * twoTo (-e).toNat) (d * twoTo e.toNat)) :
    overflowBound * d ≤ n ↔ maxExponent < e ∨ (e = maxExponent ∧ m = 2 ^ 53) := by
  have hmax : maxExponent = 971 := rfl
  have hmin : minExponent = -1074 := rfl
  obtain ⟨hlow, hhigh⟩ := overflowBound_between
  rcases lt_trichotomy e maxExponent with hlt | heq | hgt
  · -- the quotient is below `2 ^ 1023`
    have hbelow := (below_natCast_iff 1023).1 (h.below.mono (b := (1023 : Nat)) (by omega))
    refine iff_of_false (Nat.not_le.2 ?_) (by omega)
    calc n < d * 2 ^ 1023 := hbelow
      _ ≤ d * overflowBound := Nat.mul_le_mul_left d hlow
      _ = overflowBound * d := Nat.mul_comm _ _
  · -- the exponent is the greatest one, and the mantissa decides
    subst heq
    have hD : 0 < d * twoTo maxExponent.toNat := Nat.mul_pos hd (twoTo_pos _)
    have hneg : (-maxExponent).toNat = 0 := rfl
    have hone : n * twoTo (-maxExponent).toNat = n := by rw [hneg, twoTo_eq, pow_zero, mul_one]
    have htoNat : maxExponent.toNat = 970 + 1 := rfl
    have hden : d * twoTo maxExponent.toNat = 2 * (2 ^ 970 * d) := by
      rw [twoTo_eq, htoNat, pow_succ', Nat.mul_left_comm, Nat.mul_comm d]
    rw [hm, roundQuotient_eq_iff hD (by decide) h.lt, hone, hden, overflowBound, mul_assoc]
    generalize 2 ^ 970 * d = c
    omega
  · -- the quotient is at least `2 ^ 1024`
    have habove : ¬ Below n d ((1024 : Nat) : Int) := fun hbelow =>
      h.least_or_above.resolve_left (by omega) (hbelow.mono (by omega))
    rw [below_natCast_iff, Nat.not_lt] at habove
    refine iff_of_true ?_ (.inl hgt)
    calc overflowBound * d ≤ 2 ^ 1024 * d := Nat.mul_le_mul_right d hhigh
      _ = d * 2 ^ 1024 := Nat.mul_comm _ _
      _ ≤ n := habove

/-! ### Quotients -/

/-- The mantissa stays as it is, or one bit too many is carried into the exponent. -/
theorem ofRounded_cases {m : Nat} (hm : m ≤ 2 ^ 53) (e : Int) :
    (m < 2 ^ 53 ∧ e ≤ maxExponent ∧ ofRounded false m e = .finite false m e) ∨
    (m = 2 ^ 53 ∧ e + 1 ≤ maxExponent ∧ ofRounded false m e = .finite false (2 ^ 52) (e + 1)) ∨
    ((maxExponent < e ∨ (e = maxExponent ∧ m = 2 ^ 53)) ∧
      ofRounded false m e = .infinite false) := by
  rcases Nat.lt_or_eq_of_le hm with hlt | heq
  · have hcarried : ¬ m = twoTo precision := hlt.ne
    simp only [ofRounded, if_neg hcarried]
    by_cases hover : maxExponent < e
    · exact .inr (.inr ⟨.inl hover, if_pos hover⟩)
    · exact .inl ⟨hlt, Int.not_lt.1 hover, if_neg hover⟩
  · have hcarried : m = twoTo precision := heq
    simp only [ofRounded, if_pos hcarried]
    by_cases hover : maxExponent < e + 1
    · exact .inr (.inr ⟨by omega, if_pos hover⟩)
    · exact .inr (.inl ⟨heq, Int.not_lt.1 hover, if_neg hover⟩)

/-- What is finite is the nearest number. -/
theorem IsExponent.roundsTo_finite {n d : Nat} {e : Int} (h : IsExponent n d e) (hd : 0 < d)
    {m : Nat} (hm : m = roundQuotient (n * twoTo (-e).toNat) (d * twoTo e.toNat)) {k : Nat}
    {f : Int} (hformat : (Binary64.finite false k f).InFormat)
    (hcanonical : 2 ^ 52 ≤ k ∨ f = minExponent) (hbound : ¬ overflowBound * d ≤ n)
    (hunits : (Binary64.finite false k f).units = m * ulp e) (hparity : m % 2 = 0 → k % 2 = 0) :
    RoundsTo n d (.finite false k f) :=
  .finite hformat hcanonical (Nat.not_le.1 hbound) (fun _ hy => (h.nearest hd hm hunits hy).1)
    fun _ hy heq => ((h.nearest hd hm hunits hy).2 heq).imp_right hparity

/-- A quotient that is no more than half the least positive number is rounded to zero. -/
theorem roundsTo_zero {n d : Nat} (hd : 0 < d) (h : 2 * (n * ulp 0) ≤ d) :
    RoundsTo n d (zero false) := by
  have hzero : (zero false).units = 0 := by simp [zero, units]
  have hdistance : (zero false).distance n d = n * ulp 0 := by
    rw [distance, hzero, Int.zero_mul, Int.zero_sub, Int.natAbs_neg]
    exact Int.natAbs_natCast _
  have hpos : d ≤ overflowBound * d := Nat.le_mul_of_pos_left d overflowBound_pos
  have hle : n ≤ n * ulp 0 := Nat.le_mul_of_pos_right n (ulp_pos 0)
  refine .finite ⟨Nat.two_pow_pos 53, le_rfl, by decide⟩ (.inr rfl) (by omega) (fun y _ => ?_)
    fun _ _ _ => .inr rfl
  change (zero false).distance n d ≤ _
  rw [hdistance, distance]
  by_cases hy : y.units = 0
  · rw [hy, Int.zero_mul, Int.zero_sub, Int.natAbs_neg]
    exact le_rfl
  · -- any other number is at least one unit away from zero
    have hunit : d ≤ (y.units * d).natAbs := by
      rw [Int.natAbs_mul, Int.natAbs_natCast]
      exact Nat.le_mul_of_pos_left d (Int.natAbs_pos.2 hy)
    zify at h
    omega

/-- **A quotient is rounded to the nearest number.** -/
theorem roundsTo_ofQuotient (n : Nat) {d : Nat} (hd : 0 < d) :
    RoundsTo n d (ofQuotient false n d) := by
  rw [ofQuotient]
  split
  · next hzero => exact roundsTo_zero hd (by simp [hzero])
  next hne =>
  have h := isExponent_max (Nat.pos_of_ne_zero hne) hd
  simp only
  generalize max (floorLog2 n d - (precision - 1)) minExponent = e at h ⊢
  generalize hm : roundQuotient (n * twoTo (-e).toNat) (d * twoTo e.toNat) = m
  have hD : 0 < d * twoTo e.toNat := Nat.mul_pos hd (twoTo_pos _)
  have hle : m ≤ 2 ^ 53 := hm ▸ roundQuotient_le hD h.lt
  have hge : 2 ^ 52 ≤ m ∨ e = minExponent := by
    by_cases hleast : e = minExponent
    · exact .inr hleast
    · exact .inl (hm ▸ le_roundQuotient hD (h.ge hleast))
  have hover := h.overflow_iff hd hm.symm
  have hmin := h.le
  rcases ofRounded_cases hle e with ⟨hlt, hmax, heq⟩ | ⟨rfl, hmax, heq⟩ | ⟨hinfinite, heq⟩
  · rw [heq]
    refine h.roundsTo_finite hd hm.symm ⟨hlt, hmin, hmax⟩ hge ?_ rfl id
    rw [hover]
    omega
  · rw [heq]
    refine h.roundsTo_finite hd hm.symm ⟨by decide, by omega, hmax⟩ (.inl le_rfl) ?_ ?_ fun _ => rfl
    · rw [hover]
      omega
    · -- twice as great a unit, half as many
      have hulp : ulp (e + 1) = 2 * ulp e := ulp_add hmin 1
      rw [units, hulp]
      push_cast
      ring
  · rw [heq]
    exact .infinite (hover.2 hinfinite)

/-! ### Decimals -/

/-- **A decimal is rounded to the nearest number**, also where it is not worked out. -/
theorem roundsTo_ofDecimal (coefficient : Nat) (exponent : Int) :
    RoundsTo (coefficient * Decimal.tenTo exponent.toNat) (Decimal.tenTo (-exponent).toNat)
      (ofDecimal false coefficient exponent) := by
  have hten : ∀ k, Decimal.tenTo k = 10 ^ k := fun _ => rfl
  have hd : 0 < Decimal.tenTo (-exponent).toNat := Nat.pow_pos (by decide)
  have hlt := Decimal.lt_tenTo_length coefficient
  rw [ofDecimal]
  split
  · next hzero => exact roundsTo_zero hd (by simp [hzero])
  split
  · next hne hlarge =>
      refine .infinite ?_
      have hle := Decimal.tenTo_length_le hne
      rw [hten] at hle
      rw [hten, hten]
      have hpow : overflowBound ≤ 10 ^ 310 :=
        calc overflowBound ≤ 2 ^ 1024 := overflowBound_between.2
          _ ≤ 2 ^ (205 * 5) := pow_le_pow_right₀ one_le_two (by decide)
          _ = (2 ^ 205) ^ 5 := pow_mul _ _ _
          _ ≤ (10 ^ 62) ^ 5 := Nat.pow_le_pow_left (by decide) 5
          _ = 10 ^ 310 := by rw [← pow_mul]
      calc overflowBound * 10 ^ (-exponent).toNat ≤ 10 ^ 310 * 10 ^ (-exponent).toNat :=
            Nat.mul_le_mul_right _ hpow
        _ = 10 ^ (310 + (-exponent).toNat) := (pow_add _ _ _).symm
        _ ≤ 10 ^ ((Decimal.digits coefficient).length - 1 + exponent.toNat) :=
            Nat.pow_le_pow_right (by decide) (by omega)
        _ = 10 ^ ((Decimal.digits coefficient).length - 1) * 10 ^ exponent.toNat := pow_add _ _ _
        _ ≤ coefficient * 10 ^ exponent.toNat := Nat.mul_le_mul_right _ hle
  split
  · next hne _ hsmall =>
      refine roundsTo_zero hd ?_
      have hunits : (0 - minExponent).toNat + 1 = 215 * 5 := rfl
      have hpow : 2 * ulp 0 ≤ 10 ^ 330 :=
        calc 2 * ulp 0 = (2 ^ 215) ^ 5 := by rw [ulp, ← pow_succ', hunits, pow_mul]
          _ ≤ (10 ^ 66) ^ 5 := Nat.pow_le_pow_left (by decide) 5
          _ = 10 ^ 330 := by rw [← pow_mul]
      rw [hten] at hlt
      rw [hten, hten]
      calc 2 * (coefficient * 10 ^ exponent.toNat * ulp 0)
          = coefficient * 10 ^ exponent.toNat * (2 * ulp 0) := by ring
        _ ≤ 10 ^ (Decimal.digits coefficient).length * 10 ^ exponent.toNat * 10 ^ 330 :=
            Nat.mul_le_mul (Nat.mul_le_mul_right _ hlt.le) hpow
        _ = 10 ^ ((Decimal.digits coefficient).length + exponent.toNat + 330) := by
            rw [← pow_add, ← pow_add]
        _ ≤ 10 ^ (-exponent).toNat := Nat.pow_le_pow_right (by decide) (by omega)
  · exact roundsTo_ofQuotient _ hd

end Binary64

end WireCodec

import WireCodec.Proofs.Binary64.Rounding

/-
**What the nearest number to a quotient is.**

`Binary64.RoundsTo` says which number is the nearest without saying how it is found.  It leaves no
choice: of two that are equally near, one has an odd mantissa, because between even mantissas there
is an odd one that would be nearer.  For integers it means that nothing is rounded below `2 ^ 53`,
and that nothing is rounded to there, because `2 ^ 53` is a number of the format itself.

Main results:

* `Binary64.RoundsTo.unique`, `Binary64.roundsTo_iff`: **a quotient is rounded to one number only**,
  the one that is worked out;
* `Binary64.RoundsTo.denotes_iff`: integers are rounded exactly below `2 ^ 53`, and no other is
  rounded to one of these.
-/

set_option relaxedAutoImplicit false
set_option autoImplicit false

namespace WireCodec

namespace Binary64

/-! ### No other number is rounded to -/

theorem units_finite (m : Nat) (e : Int) :
    (Binary64.finite false m e).units = (m * ulp e : Nat) := by
  rw [units, Nat.cast_mul]
  rfl

section

variable {m k : Nat} {e f : Int}

/-- With 53 digits a number is greater than all those of lower exponents. -/
theorem mul_ulp_lt (hm : m < 2 ^ 53) (he : minExponent ≤ e) (hef : e < f)
    (hcanonical : 2 ^ 52 ≤ k ∨ f = minExponent) : m * ulp e < k * ulp f := by
  have hk : 2 ^ 52 ≤ k := hcanonical.resolve_right (by omega)
  obtain ⟨c, hc⟩ := Int.le.dest (Int.add_one_le_of_lt hef)
  obtain rfl : e + ((c + 1 : Nat) : Int) = f := by omega
  have hpow : 2 ≤ 2 ^ (c + 1) := Nat.le_self_pow (Nat.succ_ne_zero c) 2
  rw [ulp_add he]
  calc m * ulp e < 2 ^ 53 * ulp e := Nat.mul_lt_mul_of_pos_right hm (ulp_pos e)
    _ = 2 ^ 52 * (2 * ulp e) := by ring
    _ ≤ k * (2 ^ (c + 1) * ulp e) := Nat.mul_le_mul hk (Nat.mul_le_mul_right _ hpow)

variable (hx : (Binary64.finite false m e).InFormat) (hcanonical : 2 ^ 52 ≤ m ∨ e = minExponent)
  (hy : (Binary64.finite false k f).InFormat) (hcanonical' : 2 ^ 52 ≤ k ∨ f = minExponent)
include hx hcanonical hy hcanonical'

/-- A number of the format has one mantissa and one exponent. -/
theorem eq_of_mul_ulp_eq (h : m * ulp e = k * ulp f) : m = k ∧ e = f := by
  obtain ⟨hm, he, -⟩ := hx
  obtain ⟨hk, hf, -⟩ := hy
  rcases lt_trichotomy e f with hlt | rfl | hgt
  · exact absurd h (mul_ulp_lt hm he hlt hcanonical').ne
  · exact ⟨Nat.eq_of_mul_eq_mul_right (ulp_pos e) h, rfl⟩
  · exact absurd h (mul_ulp_lt hk hf hgt hcanonical).ne'

/-- The next mantissa gives a number in between, unless it is the one of the greater number. -/
theorem succ_mul_ulp_lt (hnext : m + 1 < 2 ^ 53) (hne : k ≠ m + 1) (hlt : m * ulp e < k * ulp f) :
    (m + 1) * ulp e < k * ulp f := by
  obtain ⟨hm, he, -⟩ := hx
  obtain ⟨hk, hf, -⟩ := hy
  rcases lt_trichotomy e f with hef | rfl | hfe
  · exact mul_ulp_lt hnext he hef hcanonical'
  · have hmk := Nat.lt_of_mul_lt_mul_right hlt
    exact Nat.mul_lt_mul_of_pos_right (by omega) (ulp_pos e)
  · exact absurd hlt (mul_ulp_lt hk hf hfe hcanonical).not_gt

/-- Two numbers with even mantissas that are equally near are not the nearest, for there is another
one between them. -/
theorem exists_nearer {n d : Nat} (hd : 0 < d) (hm : m % 2 = 0) (hk : k % 2 = 0)
    (hlt : m * ulp e < k * ulp f)
    (h : (Binary64.finite false m e).distance n d = (Binary64.finite false k f).distance n d) :
    ∃ y : Binary64, y.InFormat ∧ y.distance n d < (Binary64.finite false m e).distance n d := by
  have hnext : m + 1 < 2 ^ 53 := by
    have hbits := hx.1
    omega
  refine ⟨.finite false (m + 1) e, ⟨hnext, hx.2⟩, ?_⟩
  have hbetween := succ_mul_ulp_lt hx hcanonical hy hcanonical' hnext (by omega) hlt
  have hstep : m * ulp e < (m + 1) * ulp e :=
    Nat.mul_lt_mul_of_pos_right (Nat.lt_succ_self m) (ulp_pos e)
  have hscaled := Nat.mul_lt_mul_of_pos_right hbetween hd
  have hscaled' := Nat.mul_lt_mul_of_pos_right hstep hd
  simp only [distance, units_finite, ← Nat.cast_mul] at h ⊢
  generalize m * ulp e * d = x at *
  generalize (m + 1) * ulp e * d = y at *
  generalize k * ulp f * d = z at *
  generalize n * ulp 0 = t at *
  omega

end

/-- **A quotient is rounded to one number only.** -/
theorem RoundsTo.unique {n d : Nat} (hd : 0 < d) {x y : Binary64} (hx : RoundsTo n d x)
    (hy : RoundsTo n d y) : x = y := by
  cases hx with
  | infinite hbound =>
      cases hy with
      | infinite => rfl
      | finite _ _ hbound' => omega
  | @finite m e hformat hcanonical hbound hnearest htie =>
      cases hy with
      | infinite hbound' => omega
      | @finite k f hformat' hcanonical' _ hnearest' htie' =>
          have hdistance := Nat.le_antisymm (hnearest _ hformat') (hnearest' _ hformat)
          have hties := htie _ hformat' hdistance.symm
          have hties' := htie' _ hformat hdistance
          simp only [units_finite, Int.natCast_inj] at hties hties'
          rcases lt_trichotomy (m * ulp e) (k * ulp f) with hlt | heq | hgt
          · obtain ⟨z, hz, hnearer⟩ := exists_nearer hformat hcanonical hformat' hcanonical' hd
              (hties.resolve_left hlt.ne') (hties'.resolve_left hlt.ne) hlt hdistance
            exact absurd (hnearest z hz) hnearer.not_ge
          · obtain ⟨rfl, rfl⟩ := eq_of_mul_ulp_eq hformat hcanonical hformat' hcanonical' heq
            rfl
          · obtain ⟨z, hz, hnearer⟩ := exists_nearer hformat' hcanonical' hformat hcanonical hd
              (hties'.resolve_left hgt.ne') (hties.resolve_left hgt.ne) hgt hdistance.symm
            exact absurd (hnearest' z hz) hnearer.not_ge

/-- **The number that a quotient is rounded to is the one that is worked out.** -/
theorem roundsTo_iff {n d : Nat} (hd : 0 < d) {x : Binary64} :
    RoundsTo n d x ↔ x = ofQuotient false n d := by
  constructor
  · exact fun h => h.unique hd (roundsTo_ofQuotient n hd)
  · rintro rfl
    exact roundsTo_ofQuotient n hd

/-! ### Integers of 53 bits -/

theorem units_eq_iff_denotes {x : Binary64} (hx : x.InFormat) {i : Int} :
    x.units = i * ulp 0 ↔ x.Denotes i := by
  cases x with
  | nan | infinite => cases hx
  | finite negative m e =>
      obtain ⟨-, he, -⟩ := hx
      have hulp : (ulp 0 : Int) * 2 ^ e.toNat = ulp e * 2 ^ (-e).toNat := by
        exact_mod_cast ulp_zero_mul he
      have hpow : (2 : Int) ^ (-e).toNat ≠ 0 := Int.ne_of_gt (Int.pow_pos (by decide))
      have hzero : (ulp 0 : Int) ≠ 0 := by exact_mod_cast (ulp_pos 0).ne'
      rw [units, Denotes, ← Int.mul_eq_mul_right_iff hpow, mul_assoc, ← hulp, ← mul_assoc,
        mul_right_comm, mul_right_comm i, Int.mul_eq_mul_right_iff hzero]

/-- The distance between two integers, in units. -/
theorem distance_of_denotes {x : Binary64} (hx : x.InFormat) {i : Int} (h : x.Denotes i) (n : Nat) :
    x.distance n 1 = (i - n).natAbs * ulp 0 := by
  rw [distance, (units_eq_iff_denotes hx).2 h, Nat.cast_one, mul_one, ← Int.sub_mul,
    Int.natAbs_mul, Int.natAbs_natCast]

namespace RoundsTo

variable {n : Nat} {x : Binary64} (h : RoundsTo n 1 x)
include h

/-- An integer of 53 bits is a number of the format and not rounded. -/
theorem denotes (hn : n < 2 ^ 53) : x.Denotes n := by
  cases h with
  | finite hformat _ _ hnearest _ =>
      have hn' : (Binary64.finite false n 0).InFormat := ⟨hn, by decide, by decide⟩
      have hself : (Binary64.finite false n 0).Denotes n := rfl
      have hzero := hnearest _ hn'
      rw [distance_of_denotes hn' hself, Int.sub_self, Int.natAbs_zero, Nat.zero_mul] at hzero
      have hunits := Int.natAbs_eq_zero.1 (Nat.le_zero.1 hzero)
      rw [Nat.cast_one, mul_one] at hunits
      exact (units_eq_iff_denotes hformat).1 (Int.sub_eq_zero.1 hunits)
  | infinite hbound =>
      have hpow : 2 ^ 53 ≤ 2 ^ 1023 := pow_le_pow_right₀ one_le_two (by decide)
      have hlow := overflowBound_between.1
      omega

/-- A greater integer is rounded to no integer of 53 bits, for `2 ^ 53` is nearer. -/
theorem not_denotes (hn : 2 ^ 53 ≤ n) {i : Int} (hi : i < 2 ^ 53) : ¬ x.Denotes i := by
  intro hdenotes
  cases h with
  | finite hformat _ _ hnearest _ =>
      have hborder : (Binary64.finite false (2 ^ 52) 1).InFormat :=
        ⟨by decide, by decide, by decide⟩
      have hself : (Binary64.finite false (2 ^ 52) 1).Denotes (2 ^ 53) := by decide
      have hle := hnearest _ hborder
      rw [distance_of_denotes hformat hdenotes, distance_of_denotes hborder hself] at hle
      have hle' := Nat.le_of_mul_le_mul_right hle (ulp_pos 0)
      omega
  | infinite => exact hdenotes

/-- **Rounding is exact below `2 ^ 53` and leads nothing else there.** -/
theorem denotes_iff {k : Nat} (hk : k < 2 ^ 53) : x.Denotes k ↔ n = k := by
  constructor
  · intro hdenotes
    by_cases hn : n < 2 ^ 53
    · obtain ⟨-, hvalue⟩ := Binary64.denotes_iff.1 hdenotes
      obtain ⟨-, hvalue'⟩ := Binary64.denotes_iff.1 (h.denotes hn)
      exact Int.ofNat.inj (hvalue'.symm.trans hvalue)
    · exact absurd hdenotes (h.not_denotes (Nat.not_lt.1 hn) (by omega))
  · rintro rfl
    exact h.denotes hk

end RoundsTo

end Binary64

end WireCodec

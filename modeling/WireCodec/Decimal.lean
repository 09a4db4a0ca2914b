import WireCodec.Text

/-
**Natural numbers and integers in base ten.**

Main definitions:

* `Digit`, `Digit.unit`, `Digit.ofUnit?`: a decimal digit and the unit `0` to `9` that writes it;
* `Decimal.digits`, `Decimal.number`: the digits of a number without leading zeros, and the number
  that any list of digits denotes;
* `Decimal.text`, `Decimal.intText`: numbers written out;
* `Decimal.read?`: the number that a text of digits denotes, leading zeros allowed.
-/

set_option relaxedAutoImplicit false
set_option autoImplicit false

namespace WireCodec

/-- A decimal digit. -/
abbrev Digit := Fin 10

/-- The digit zero. -/
def Digit.zero : Digit := ⟨0, by decide⟩

/-- The unit that writes a digit. -/
def Digit.unit (d : Digit) : CodeUnit := UInt16.ofNat (48 + d.val)

/-- The digit that a unit writes. -/
def Digit.ofUnit? (u : CodeUnit) : Option Digit :=
  if h : 48 ≤ u.toNat ∧ u.toNat < 58 then some ⟨u.toNat - 48, by omega⟩ else none

@[simp] theorem Digit.ofUnit?_unit (d : Digit) : Digit.ofUnit? d.unit = some d := by
  revert d
  decide

namespace Decimal

/-! ### Writing -/

/-- The digits of a number, most significant first, without leading zeros. -/
def digits (n : Nat) : List Digit :=
  if h : n < 10 then [⟨n, h⟩]
  else digits (n / 10) ++ [⟨n % 10, Nat.mod_lt n (by omega)⟩]
termination_by n

/-- A list of digits, written. -/
def spell (ds : List Digit) : Text := ds.map Digit.unit

/-- A natural number in base ten. -/
def text (n : Nat) : Text := spell (digits n)

/-- The minus sign. -/
def minus : CodeUnit := Text.unit '-'

/-- An integer in base ten, with a minus sign when it is negative. -/
def intText : Int → Text
  | .ofNat n => text n
  | .negSucc n => minus :: text (n + 1)

/-- A power of ten. -/
def tenTo (n : Nat) : Nat := Nat.pow 10 n

/-! ### Reading -/

/-- The number that a list of digits denotes. -/
def number (ds : List Digit) : Nat := ds.foldl (fun n d => 10 * n + d.val) 0

/-- The digits of a text that holds nothing else. -/
def readDigits : Text → Option (List Digit)
  | [] => some []
  | u :: t =>
      match Digit.ofUnit? u, readDigits t with
      | some d, some ds => some (d :: ds)
      | _, _ => none

@[simp] theorem readDigits_spell (ds : List Digit) : readDigits (spell ds) = some ds := by
  induction ds with
  | nil => rfl
  | cons d ds ih =>
      rw [spell] at ih ⊢
      simp [readDigits, ih]

/-- The number that a text of one or more digits denotes. -/
def read? (t : Text) : Option Nat :=
  if t = [] then none else (readDigits t).map number

/-- The integer that a text of digits denotes, perhaps with a minus sign in front. -/
def readInt? : Text → Option Int
  | [] => none
  | u :: t =>
      if u = minus then (read? t).map fun n => -(n : Int) else (read? (u :: t)).map Int.ofNat

/-- The digits at the beginning of a text, and what follows them. -/
def takeDigits : Text → List Digit × Text
  | [] => ([], [])
  | u :: t =>
      match Digit.ofUnit? u with
      | some d => (d :: (takeDigits t).1, (takeDigits t).2)
      | none => ([], u :: t)

end Decimal

end WireCodec

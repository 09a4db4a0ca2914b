import WireCodec.Json.Parser
import WireCodec.Proofs.Decimal

/-
**The grammar of JSON.**

The reader of `WireCodec.Json.Parser` goes through a text once, with fuel.  Here the texts of a
document are described by the rules of the grammar, without any reading.  The one rule that is not
about units, which further members an object may take, is a parameter as it is for the reader.

Main definitions:

* `Json.Blank`, `Json.ContentForm`, `Json.KeyForm`, `Json.Numeral.IsToken`: white space, the
  content of a text between its quotes, a key with its colon, and number tokens;
* `Json.Written`, `Json.WrittenSpaced`: a text writes a document, without and with white space
  around it;
* `Json.Doc.Shape.ofUnit?`: the shape of the documents that begin with a unit.

Main results:

* `Json.Written.exists_head`: the first unit tells the shape of what is written.
-/

set_option relaxedAutoImplicit false
set_option autoImplicit false

namespace WireCodec

namespace Json

/-! ### Tokens -/

/-- White space only. -/
def Blank (t : Text) : Prop := ∀ u ∈ t, isSpace u = true

/-- A unit of a text and how it may be written between quotes. -/
inductive UnitForm : CodeUnit → Text → Prop where
  | plain {u : CodeUnit} (hquote : u ≠ quote) (hback : u ≠ backslash) (hcontrol : 0x20 ≤ u.toNat) :
      UnitForm u [u]
  | short {e u : CodeUnit} (h : escaped? e = some u) : UnitForm u [backslash, e]
  | digits {a b c d u : CodeUnit} (h : unitOfDigits? a b c d = some u) :
      UnitForm u [backslash, Text.unit 'u', a, b, c, d]

/-- A text and how it may be written between quotes. -/
inductive ContentForm : Text → Text → Prop where
  | nil : ContentForm [] []
  | cons {u : CodeUnit} {t form forms : Text} (hu : UnitForm u form) (ht : ContentForm t forms) :
      ContentForm (u :: t) (form ++ forms)

/-- A key and how it may be written, with its colon and white space before both. -/
inductive KeyForm : Text → Text → Prop where
  | mk {before key content between : Text} (hbefore : Blank before)
      (hkey : ContentForm key content) (hbetween : Blank between) :
      KeyForm key (before ++ quote :: (content ++ quote :: (between ++ [colon])))

/-- The parts of a number are those of a token: no empty run of digits, and no zero in front of
other digits before the point. -/
structure Numeral.IsToken (n : Numeral) : Prop where
  whole : Decimal.IsCanonical n.whole
  fraction : n.fraction ≠ some []
  exponent : ∀ e, n.exponent = some e → e.digits ≠ []

theorem Numeral.isToken_ofNat (n : Nat) : (Numeral.ofNat n).IsToken where
  whole := Decimal.isCanonical_digits n
  fraction := nofun
  exponent := nofun

/-! ### Documents -/

section

variable (admits : Admission)

mutual

/-- The text writes the document. -/
inductive Written : Doc → Text → Prop where
  | null : Written .null nullWord
  | bool (b : Bool) : Written (.bool b) (if b then trueWord else falseWord)
  | number {n : Numeral} (h : n.IsToken) : Written (.number n) n.text
  | text {t content : Text} (h : ContentForm t content) :
      Written (.text t) (quote :: (content ++ [quote]))
  | emptyArray {t : Text} (h : Blank t) : Written (.array []) (openArray :: (t ++ [closeArray]))
  | array {items : List Doc} {t : Text} (h : WrittenItems items t) :
      Written (.array items) (openArray :: (t ++ [closeArray]))
  | emptyObject {t : Text} (h : Blank t) :
      Written (.object []) (openObject :: (t ++ [closeObject]))
  | object {members : List (Text × Doc)} {t : Text} (h : WrittenMembers [] members t) :
      Written (.object members) (openObject :: (t ++ [closeObject]))

/-- The text writes the document with white space around it. -/
inductive WrittenSpaced : Doc → Text → Prop where
  | mk {before t after : Text} {d : Doc} (hbefore : Blank before) (h : Written d t)
      (hafter : Blank after) : WrittenSpaced d (before ++ (t ++ after))

/-- The text writes one or more items with commas between them. -/
inductive WrittenItems : List Doc → Text → Prop where
  | last {d : Doc} {t : Text} (h : WrittenSpaced d t) : WrittenItems [d] t
  | cons {d : Doc} {items : List Doc} {t rest : Text} (h : WrittenSpaced d t)
      (hrest : WrittenItems items rest) : WrittenItems (d :: items) (t ++ comma :: rest)

/-- The text writes one or more members, each of which may follow those before it. -/
inductive WrittenMembers : List (Text × Doc) → List (Text × Doc) → Text → Prop where
  | last {seen : List (Text × Doc)} {key k : Text} {d : Doc} {t : Text} (hkey : KeyForm key k)
      (h : WrittenSpaced d t) (hallowed : admits seen key d = true) :
      WrittenMembers seen [(key, d)] (k ++ t)
  | cons {seen members : List (Text × Doc)} {key k : Text} {d : Doc} {t rest : Text}
      (hkey : KeyForm key k) (h : WrittenSpaced d t) (hallowed : admits seen key d = true)
      (hrest : WrittenMembers (seen ++ [(key, d)]) members rest) :
      WrittenMembers seen ((key, d) :: members) (k ++ (t ++ comma :: rest))

end

end

/-! ### The first unit -/

/-- The shape of the documents that begin with a unit. -/
def Doc.Shape.ofUnit? (u : CodeUnit) : Option Doc.Shape :=
  if u = quote then some .text
  else if u = openArray then some .array
  else if u = openObject then some .object
  else if u = Text.unit 'n' then some .null
  else if u = Text.unit 't' ∨ u = Text.unit 'f' then some .bool
  else if u = Decimal.minus ∨ (Digit.ofUnit? u).isSome then some .number
  else none

theorem Doc.Shape.ofUnit?_digit (d : Digit) : Doc.Shape.ofUnit? d.unit = some .number := by
  revert d
  decide

/-- A token begins with a minus sign or with a digit. -/
theorem Numeral.IsToken.exists_head {n : Numeral} (h : n.IsToken) :
    ∃ u rest, n.text = u :: rest ∧ Doc.Shape.ofUnit? u = some .number := by
  obtain ⟨negative, whole, fraction, exponent⟩ := n
  cases negative with
  | true => exact ⟨_, _, rfl, rfl⟩
  | false =>
      rcases h.whole with hzero | ⟨d, ds, hds, -⟩
      · simp only at hzero
        subst hzero
        exact ⟨_, _, rfl, Doc.Shape.ofUnit?_digit Digit.zero⟩
      · simp only at hds
        subst hds
        exact ⟨_, _, rfl, Doc.Shape.ofUnit?_digit d⟩

/-- **The first unit tells the shape of what is written.** -/
theorem Written.exists_head {admits : Admission} {d : Doc} {t : Text} (h : Written admits d t) :
    ∃ u rest, t = u :: rest ∧ Doc.Shape.ofUnit? u = some d.shape := by
  cases h with
  | bool b => cases b <;> exact ⟨_, _, rfl, rfl⟩
  | number h => exact h.exists_head
  | null | text | emptyArray | array | emptyObject | object => exact ⟨_, _, rfl, rfl⟩

end Json

end WireCodec

import WireCodec.Json.Printer

/-
**Reading JSON documents.**

The reader goes through the text once and stops at the first fault.  Besides the grammar it knows
two rules of its own: a number token without digits before its point passes the scan and is then
refused with its text, and a key may be refused by the reader's caller when it was seen before.

Main definitions:

* `Json.Fault`: why a text is refused;
* `Json.Admission`: which further members an object may take;
* `Json.scanText`, `Json.scanNumeral`: the token at the beginning of a text, and what follows it;
* `Json.Doc.parse`: the document of a whole text.
-/

set_option relaxedAutoImplicit false
set_option autoImplicit false

namespace WireCodec

namespace Json

/-- Why a text is not a document. -/
inductive Fault where
  /-- The text breaks the grammar, or repeats a key where it may not. -/
  | malformed
  /-- A number token has no digits before its point or exponent. -/
  | noWholePart (token : Text)
  deriving DecidableEq, Repr

/-- Whether an object may take a further member after the members it has. -/
abbrev Admission := List (Text × Doc) → Text → Doc → Bool

/-- White space between tokens. -/
def isSpace (u : CodeUnit) : Bool := u == 0x20 || u == 0x0A || u == 0x09 || u == 0x0D

/-- A text without the white space at its beginning. -/
def skipSpace (t : Text) : Text := t.dropWhile isSpace

/-! ### Texts -/

/-- The unit that a one letter escape stands for. -/
def escaped? (u : CodeUnit) : Option CodeUnit :=
  if u = quote then some quote
  else if u = backslash then some backslash
  else if u = Text.unit '/' then some (Text.unit '/')
  else if u = Text.unit 'b' then some 0x08
  else if u = Text.unit 'f' then some 0x0C
  else if u = Text.unit 'n' then some 0x0A
  else if u = Text.unit 'r' then some 0x0D
  else if u = Text.unit 't' then some 0x09
  else none

/-- The unit that four base sixteen digits denote. -/
def unitOfDigits? (a b c d : CodeUnit) : Option CodeUnit :=
  match Base16.digit? a, Base16.digit? b, Base16.digit? c, Base16.digit? d with
  | some a, some b, some c, some d =>
      some (UInt16.ofNat (0x1000 * a.val + 0x100 * b.val + 0x10 * c.val + d.val))
  | _, _, _, _ => none

/-- A unit put in front of a text that was read. -/
def consUnit (u : CodeUnit) (r : Text × Text) : Text × Text := (u :: r.1, r.2)

/-- The content of a text after its opening quote, and what follows the closing one. -/
def scanText : Text → Option (Text × Text)
  | [] => none
  | u :: t =>
      if u = quote then some ([], t)
      else if u = backslash then
        match t with
        | [] => none
        | e :: t =>
            if e = Text.unit 'u' then
              match t with
              | a :: b :: c :: d :: t =>
                  match unitOfDigits? a b c d with
                  | some v => (scanText t).map (consUnit v)
                  | none => none
              | _ => none
            else
              match escaped? e with
              | some v => (scanText t).map (consUnit v)
              | none => none
      else if u.toNat < 0x20 then none
      else (scanText t).map (consUnit u)

/-! ### Numbers -/

/-- A minus sign in front of a digit, or nothing. -/
def scanMinus : Text → Except Fault (Bool × Text)
  | [] => .ok (false, [])
  | u :: t =>
      if u = Decimal.minus then
        if (Decimal.takeDigits t).1 = [] then .error .malformed else .ok (true, t)
      else .ok (false, u :: t)

/-- The digits before the point: a zero alone, or all there are. -/
def scanWhole : Text → List Digit × Text
  | [] => ([], [])
  | u :: t => if u = Text.unit '0' then ([Digit.zero], t) else Decimal.takeDigits (u :: t)

/-- One or more digits. -/
def scanDigits (t : Text) : Except Fault (List Digit × Text) :=
  match Decimal.takeDigits t with
  | ([], _) => .error .malformed
  | (d :: ds, rest) => .ok (d :: ds, rest)

/-- A point with digits after it, or nothing. -/
def scanFraction : Text → Except Fault (Option (List Digit) × Text)
  | [] => .ok (none, [])
  | u :: t =>
      if u = Text.unit '.' then (scanDigits t).map fun (ds, rest) => (some ds, rest)
      else .ok (none, u :: t)

/-- The sign of an exponent, or nothing. -/
def scanExponentSign : Text → Option Bool × Text
  | [] => (none, [])
  | u :: t =>
      if u = Decimal.minus then (some true, t)
      else if u = Text.unit '+' then (some false, t)
      else (none, u :: t)

/-- An exponent part, or nothing. -/
def scanExponent : Text → Except Fault (Option Exponent × Text)
  | [] => .ok (none, [])
  | u :: t =>
      if u = Text.unit 'e' ∨ u = Text.unit 'E' then
        let (sign, t) := scanExponentSign t
        (scanDigits t).map fun (ds, rest) => (some ⟨decide (u = Text.unit 'E'), sign, ds⟩, rest)
      else .ok (none, u :: t)

/-- A number token, and what follows it. -/
def scanNumeral (t : Text) : Except Fault (Numeral × Text) := do
  let (negative, t) ← scanMinus t
  let (whole, t) := scanWhole t
  let (fraction, t) ← scanFraction t
  let (exponent, t) ← scanExponent t
  let n : Numeral := ⟨negative, whole, fraction, exponent⟩
  if whole = [] then .error (.noWholePart n.text) else .ok (n, t)

/-- A unit that a number token can begin with. -/
def beginsNumeral (u : CodeUnit) : Bool :=
  u == Decimal.minus || (Digit.ofUnit? u).isSome || u == Text.unit '.' || u == Text.unit 'e'
    || u == Text.unit 'E'

/-! ### Documents -/

/-- One of the three words, and what follows it. -/
def scanWord (t : Text) : Except Fault (Doc × Text) :=
  match Text.after? trueWord t, Text.after? falseWord t, Text.after? nullWord t with
  | some rest, _, _ => .ok (.bool true, rest)
  | _, some rest, _ => .ok (.bool false, rest)
  | _, _, some rest => .ok (.null, rest)
  | _, _, _ => .error .malformed

/-- A quoted key with its colon, and what follows. -/
def scanKey (t : Text) : Option (Text × Text) :=
  match skipSpace t with
  | [] => none
  | u :: t =>
      if u = quote then
        match scanText t with
        | none => none
        | some (key, t) =>
            match skipSpace t with
            | [] => none
            | v :: t => if v = colon then some (key, t) else none
      else none

mutual

/-- The document at the beginning of a text with white space around it, and what follows.  `fuel`
bounds the number of nested calls. -/
def scanDoc (admits : Admission) : Nat → Text → Except Fault (Doc × Text)
  | 0, _ => .error .malformed
  | fuel + 1, t =>
      match skipSpace t with
      | [] => .error .malformed
      | u :: t =>
          if u = quote then
            match scanText t with
            | some (s, rest) => .ok (.text s, skipSpace rest)
            | none => .error .malformed
          else if u = openArray then
            match skipSpace t with
            | [] => .error .malformed
            | v :: t =>
                if v = closeArray then .ok (.array [], skipSpace t)
                else
                  (scanItems admits fuel (v :: t)).map fun (items, rest) =>
                    (.array items, skipSpace rest)
          else if u = openObject then
            match skipSpace t with
            | [] => .error .malformed
            | v :: t =>
                if v = closeObject then .ok (.object [], skipSpace t)
                else
                  (scanMembers admits fuel [] (v :: t)).map fun (members, rest) =>
                    (.object members, skipSpace rest)
          else if beginsNumeral u then
            (scanNumeral (u :: t)).map fun (n, rest) => (.number n, skipSpace rest)
          else (scanWord (u :: t)).map fun (d, rest) => (d, skipSpace rest)

/-- One or more items up to the end of an array, and what follows. -/
def scanItems (admits : Admission) : Nat → Text → Except Fault (List Doc × Text)
  | 0, _ => .error .malformed
  | fuel + 1, t =>
      match scanDoc admits fuel t with
      | .error fault => .error fault
      | .ok (_, []) => .error .malformed
      | .ok (d, u :: t) =>
          if u = closeArray then .ok ([d], t)
          else if u = comma then
            (scanItems admits fuel t).map fun (items, rest) => (d :: items, rest)
          else .error .malformed

/-- One or more members up to the end of an object after the members in `seen`, all of them
together, and what follows. -/
def scanMembers (admits : Admission) :
    Nat → List (Text × Doc) → Text → Except Fault (List (Text × Doc) × Text)
  | 0, _, _ => .error .malformed
  | fuel + 1, seen, t =>
      match scanKey t with
      | none => .error .malformed
      | some (key, t) =>
          match scanDoc admits fuel t with
          | .error fault => .error fault
          | .ok (d, t) =>
              if admits seen key d then
                match t with
                | [] => .error .malformed
                | u :: t =>
                    if u = closeObject then .ok (seen ++ [(key, d)], t)
                    else if u = comma then scanMembers admits fuel (seen ++ [(key, d)]) t
                    else .error .malformed
              else .error .malformed

end

/-- The document of a whole text. -/
def Doc.parse (admits : Admission) (t : Text) : Except Fault Doc :=
  match scanDoc admits (2 * t.length + 2) t with
  | .error fault => .error fault
  | .ok (d, []) => .ok d
  | .ok (_, _ :: _) => .error .malformed

end Json

end WireCodec

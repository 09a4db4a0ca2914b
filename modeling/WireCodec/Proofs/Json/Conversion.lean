import WireCodec.Json.Conversion
import WireCodec.Proofs.Decimal
import WireCodec.Proofs.Json.Reading
import WireCodec.Proofs.Outcome

/-
**Methods that are asked for a text or a number.**

A value with members is asked for two methods, one after the other, and the answer may need the
same of its members.  A member is less deep than the value, so the depth to which values are turned
into values without members is always enough, and the answers satisfy an equation without it.

Main definitions:

* `Json.Value.answer`: what a value answers when it is asked for a method;
* `Json.Value.joinPart`: what stands at a place of a value that is written as an array.

Main results:

* `Json.Value.depth_lt_of_get`: a member is less deep, unless it holds no members;
* `Json.Value.simplifyTo_eq_of_lt`: the depth does not matter as long as it is that of the value;
* `Json.Value.simplify_of_composite`: a value with members is turned into the first answer of its
  methods.
-/

set_option relaxedAutoImplicit false
set_option autoImplicit false

namespace WireCodec

namespace Json

namespace Value

/-! ### Methods -/

/-- What a value answers when it is asked for a method: nothing, unless a root supplies it. -/
def answer (simplify : Wanted → Value → Except Misuse Value) (v : Value) (name : Text) :
    Except Misuse (Option Value) :=
  match v.find? name with
  | some (.method owner) => call simplify owner name v
  | _ => .ok none

section

variable {simplify : Wanted → Value → Except Misuse Value} {v : Value} {name : Text}
  {names : List Text}

/-- The methods are asked one after another. -/
theorem firstAnswer_cons :
    firstAnswer simplify v (name :: names) =
      match answer simplify v name with
      | .error misuse => .error misuse
      | .ok (some x) => .ok x
      | .ok none => firstAnswer simplify v names := by
  rw [firstAnswer, answer]
  cases v.find? name with
  | none => rfl
  | some x => cases x <;> rfl

theorem firstAnswer_of_none (h : answer simplify v name = .ok none) :
    firstAnswer simplify v (name :: names) = firstAnswer simplify v names := by
  rw [firstAnswer_cons, h]

theorem firstAnswer_of_some {x : Value} (h : answer simplify v name = .ok (some x)) :
    firstAnswer simplify v (name :: names) = .ok x := by
  rw [firstAnswer_cons, h]

theorem firstAnswer_of_error {misuse : Misuse} (h : answer simplify v name = .error misuse) :
    firstAnswer simplify v (name :: names) = .error misuse := by
  rw [firstAnswer_cons, h]

end

/-! ### Numbers of tokens -/

theorem readInt?_of_read? {t : Text} {n : Nat} (h : Decimal.read? t = some n) :
    Decimal.readInt? t = some (n : Int) := by
  cases t with
  | nil => cases h
  | cons u t =>
      have hu : u ≠ Decimal.minus := by
        rintro rfl
        rw [Decimal.read?_minus_cons] at h
        cases h
      rw [Decimal.readInt?, if_neg hu, h]
      rfl

/-- A token of digits denotes a number. -/
theorem exists_tokenNumber {t : Text} {n : Nat} (h : Decimal.read? t = some n) :
    ∃ x, tokenNumber t = .ok x := by
  rw [tokenNumber, readInt?_of_read? h]
  simp only
  split
  · exact ⟨_, rfl⟩
  · exact ⟨_, rfl⟩

/-! ### Methods of tokens -/

section

variable {simplify : Wanted → Value → Except Misuse Value} {v x : Value}

/-- The method for texts of a token answers with what stands for the token's text. -/
theorem get_valueKey_of_call (h : call simplify .token textMethod v = .ok (some x)) :
    v.get valueKey = x ∧ x.isComposite = false := by
  rw [call.eq_def, if_pos rfl] at h
  simp only at h
  split at h
  · cases h
  · next hplain =>
      obtain rfl := Option.some_inj.1 (Except.ok.inj h)
      exact ⟨rfl, by simpa using hplain⟩

/-- Only a token's method for numbers answers, with the number of the token's text. -/
theorem exists_token_of_call {owner : Root}
    (h : call simplify owner numberMethod v = .ok (some x)) :
    owner = .token ∧ ∃ t, v.get valueKey = .text t ∧ tokenNumber t = .ok x := by
  have hname : ¬ numberMethod = textMethod := by decide
  rw [call.eq_def, if_neg hname] at h
  cases owner with
  | token =>
      refine ⟨rfl, ?_⟩
      simp only at h
      split at h
      next t ht =>
        obtain ⟨x', hx', hsome⟩ := exists_of_map_eq_ok h
        exact ⟨t, ht, Option.some_inj.1 hsome ▸ hx'⟩
      next => cases h
      next x hnull htext =>
        obtain ⟨_, -, herror⟩ := exists_of_bind_eq_ok h
        cases herror
  | object | array | text | bool | double | integer => cases h

end

/-! ### The depth -/

theorem depth_lt_of_mem {items : List Value} {v : Value} (h : v ∈ items) :
    v.depth < (Value.array items).depth := by
  rw [depth]
  induction items with
  | nil => cases h
  | cons w rest ih =>
      rw [depthItems]
      rcases List.mem_cons.1 h with rfl | h
      · omega
      · have hrest := ih h
        omega

theorem depth_lt_of_lookup {members : List (Text × Value)} {p v : Value} {key : Text}
    (h : members.lookup key = some v) : v.depth < (Value.object members p).depth := by
  rw [depth]
  induction members with
  | nil => cases h
  | cons m rest ih =>
      obtain ⟨k, w⟩ := m
      rw [depthMembers]
      rw [List.lookup_cons] at h
      split at h
      · obtain rfl := Option.some_inj.1 h
        omega
      · have hrest := ih h
        omega

theorem depth_pos (v : Value) : 0 < v.depth := by
  cases v <;> simp [depth]

theorem isComposite_of_rootOwn? {r : Root} {x : Value} {key : Text}
    (h : rootOwn? r key = some x) : x.isComposite = false := by
  rw [rootOwn?] at h
  split at h
  · rw [← Option.some_inj.1 h]
    rfl
  split at h
  · rw [← Option.some_inj.1 h]
    rfl
  · cases h

theorem isComposite_of_supplied? {v x : Value} {key : Text} (h : supplied? v key = some x) :
    x.isComposite = false := by
  cases v with
  | root r =>
      have hor : supplied? (.root r) key = (rootOwn? r key).or (rootOwn? .object key) :=
        Option.orElse_eq_or
      rw [hor] at h
      rcases Option.or_eq_some_iff.1 h with hr | ⟨-, hr⟩
      · exact isComposite_of_rootOwn? hr
      · exact isComposite_of_rootOwn? hr
  | missing | null | bool | text | double | integer | token | array | object | method => cases h

/-- A member of a value itself holds no members or is less deep. -/
theorem depth_lt_of_own? {v x : Value} {key : Text} (h : v.own? key = some x) :
    x.isComposite = false ∨ x.depth < v.depth := by
  cases v with
  | missing | null | bool | double | integer | method => cases h
  | text t =>
      rw [own?] at h
      split at h
      · exact .inl (by rw [← Option.some_inj.1 h]; rfl)
      · obtain ⟨u, -, rfl⟩ := Option.map_eq_some_iff.1 h
        exact .inl rfl
  | token n =>
      rw [own?] at h
      split at h
      · exact .inl (by rw [← Option.some_inj.1 h]; rfl)
      split at h
      · exact .inl (by rw [← Option.some_inj.1 h]; rfl)
      · cases h
  | array items =>
      rw [own?] at h
      split at h
      · exact .inl (by rw [← Option.some_inj.1 h]; rfl)
      · obtain ⟨i, -, hi⟩ := Option.bind_eq_some_iff.1 h
        exact .inr (depth_lt_of_mem (List.mem_of_getElem? hi))
  | object members p => exact .inr (depth_lt_of_lookup h)
  | root r => exact .inl (isComposite_of_rootOwn? h)

/-- What is found in a value holds no members or is less deep. -/
theorem depth_lt_of_find? {v x : Value} {key : Text} (h : v.find? key = some x) :
    x.isComposite = false ∨ x.depth < v.depth := by
  by_cases hobject : ∃ members p, v = .object members p
  · obtain ⟨members, p, rfl⟩ := hobject
    have hor : (Value.object members p).find? key = (members.lookup key).or (p.find? key) := by
      rw [find?]
      exact Option.orElse_eq_or
    rw [hor] at h
    rcases Option.or_eq_some_iff.1 h with hown | ⟨-, hparent⟩
    · exact .inr (depth_lt_of_lookup hown)
    · refine (depth_lt_of_find? hparent).imp_right fun hlt => ?_
      rw [depth]
      omega
  · rw [find?_of_not_object v fun members p hv => hobject ⟨members, p, hv⟩] at h
    rcases Option.or_eq_some_iff.1 h with hown | ⟨-, hsupplied⟩
    · exact depth_lt_of_own? hown
    · exact .inl (isComposite_of_supplied? hsupplied)
termination_by sizeOf v

/-- A member under a name other than that of the parent holds no members or is less deep. -/
theorem depth_lt_of_get {key : Text} (hkey : key ≠ parentKey) (v : Value) :
    (v.get key).isComposite = false ∨ (v.get key).depth < v.depth := by
  rw [get_of_ne_parentKey hkey]
  cases hfind : v.find? key with
  | none => exact .inl rfl
  | some x => exact depth_lt_of_find? hfind

/-- What stands at a place of a value that is written as an array: nothing for null and for what is
missing. -/
def joinPart (simplify : Wanted → Value → Except Misuse Value) (v : Value) (i : Nat) :
    Except Misuse (Nat × Text) :=
  match v.get (Decimal.text i) with
  | .missing | .null => .ok (i, [])
  | item => (simplify .text item).map fun x => (i, x.spell)

theorem joinItems_eq (simplify : Wanted → Value → Except Misuse Value) (v : Value) :
    joinItems simplify v =
      (do
        let length ← (← simplify .number (v.get lengthKey)).lengthOf
        let parts ← (v.places length).mapM (joinPart simplify v)
        if parts.foldl (fun n part => n + part.2.length) (length - 1) ≤ maxTextLength then
          .ok (commaSeparated length 0 parts)
        else .error .textTooLong) := rfl

theorem text_ne_of_read? {key : Text} (h : Decimal.read? key = none) (i : Nat) :
    Decimal.text i ≠ key := by
  rintro rfl
  rw [Decimal.read?_text] at h
  cases h

section

variable {simplify simplify' : Wanted → Value → Except Misuse Value} {v : Value}
  (h : ∀ key, key ≠ parentKey → ∀ wanted,
    simplify wanted (v.get key) = simplify' wanted (v.get key))
include h

theorem joinItems_congr : joinItems simplify v = joinItems simplify' v := by
  have hpart : joinPart simplify v = joinPart simplify' v := by
    funext i
    have hitem := h (Decimal.text i) (text_ne_of_read? rfl i) .text
    rw [joinPart, joinPart]
    cases hget : v.get (Decimal.text i) with
    | missing | null => rfl
    | bool | text | double | integer | token | array | object | root | method =>
        rw [hget] at hitem
        simp only [hitem]
  rw [joinItems_eq, joinItems_eq, h lengthKey (by decide), hpart]

theorem call_congr (owner : Root) (name : Text) :
    call simplify owner name v = call simplify' owner name v := by
  have hvalue := h valueKey (by decide) .text
  rw [call.eq_def, call.eq_def, joinItems_congr h]
  cases hget : v.get valueKey with
  | text | null => rfl
  | missing | bool | double | integer | token | array | object | root | method =>
      rw [hget] at hvalue
      simp only [hvalue]

theorem firstAnswer_congr (names : List Text) :
    firstAnswer simplify v names = firstAnswer simplify' v names := by
  induction names with
  | nil => rfl
  | cons name names ih =>
      rw [firstAnswer, firstAnswer, ih]
      split
      · rw [call_congr h]
      · rfl

end

theorem simplifyTo_of_plain {fuel : Nat} {v : Value} (h : v.isComposite = false) (hfuel : 0 < fuel)
    (wanted : Wanted) : simplifyTo fuel wanted v = .ok v := by
  obtain ⟨k, rfl⟩ : ∃ k, fuel = k + 1 := ⟨fuel - 1, by omega⟩
  rw [simplifyTo, if_neg (by simp [h])]

theorem simplifyTo_of_composite {fuel : Nat} {v : Value} (h : v.isComposite = true)
    (wanted : Wanted) : simplifyTo (fuel + 1) wanted v =
      firstAnswer (simplifyTo fuel) v wanted.methods := by
  rw [simplifyTo, if_pos h]

/-- The depth does not matter as long as it is that of the value. -/
theorem simplifyTo_eq_of_lt {n : Nat} {v : Value} (hv : v.depth ≤ n) {fuel fuel' : Nat}
    (hfuel : v.depth < fuel) (hfuel' : v.depth < fuel') (wanted : Wanted) :
    simplifyTo fuel wanted v = simplifyTo fuel' wanted v := by
  have hpos := v.depth_pos
  induction n generalizing v fuel fuel' wanted with
  | zero => omega
  | succ n ih =>
      cases hcomposite : v.isComposite with
      | false =>
          rw [simplifyTo_of_plain hcomposite (by omega), simplifyTo_of_plain hcomposite (by omega)]
      | true =>
          obtain ⟨k, rfl⟩ : ∃ k, fuel = k + 1 := ⟨fuel - 1, by omega⟩
          obtain ⟨k', rfl⟩ : ∃ k', fuel' = k' + 1 := ⟨fuel' - 1, by omega⟩
          rw [simplifyTo_of_composite hcomposite, simplifyTo_of_composite hcomposite]
          refine firstAnswer_congr (fun key hkey wanted' => ?_) wanted.methods
          rcases depth_lt_of_get hkey v with hplain | hlt
          · rw [simplifyTo_of_plain hplain (by omega), simplifyTo_of_plain hplain (by omega)]
          · exact ih (by omega) (by omega) (by omega) wanted' (depth_pos _)

theorem simplify_of_plain {v : Value} (h : v.isComposite = false) (wanted : Wanted) :
    v.simplify wanted = .ok v :=
  simplifyTo_of_plain h (by omega) wanted

/-- **A value with members is turned into the first answer of its methods**, for which its members
are turned into values without members themselves. -/
theorem simplify_of_composite {v : Value} (h : v.isComposite = true) (wanted : Wanted) :
    v.simplify wanted = firstAnswer simplify v wanted.methods := by
  rw [simplify, simplifyTo_of_composite h]
  refine firstAnswer_congr (fun key hkey wanted' => ?_) wanted.methods
  rcases depth_lt_of_get hkey v with hplain | hlt
  · rw [simplifyTo_of_plain hplain v.depth_pos, simplify_of_plain hplain]
  · exact simplifyTo_eq_of_lt (Nat.le_refl _) hlt (by omega) wanted'

end Value

end Json

end WireCodec

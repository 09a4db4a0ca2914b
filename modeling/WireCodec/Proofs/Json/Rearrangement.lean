import Mathlib.Data.List.Nodup
import WireCodec.Proofs.Json.Inheritance

/-
**Objects with rearranged and further members.**

Members are looked up by their keys, so their order does not matter where the members of one key
agree.  Further members of new keys leave the others alone, with two exceptions: a member
`__proto__` gives a parent to an object that had none, and then, as does a member
`isLosslessNumber`, it may make the object pass for a number.

Main definitions:

* `Json.Rearranges`: the members of an object in another order, with further ones of new keys;
* `Json.Agrees`: the members of a key are all the same;
* `Json.AddsNumber`: the further members make an object pass for a number.

Main results:

* `Json.Agrees.lastMember?_eq_some_iff`, `Json.Agrees.parentMember?_eq_some_iff`: the last member
  and the parent, where members agree;
* `Json.Rearranges.get_eq`: what an object has under an ordinary name stays;
* `Json.Rearranges.passesForNumber_iff`: when a rearranged object passes for a number.
-/

set_option relaxedAutoImplicit false
set_option autoImplicit false

namespace WireCodec

namespace Json

/-! ### Members that agree -/

/-- The members of a key are all the same. -/
def Agrees (key : Text) (members : List (Text × Doc)) : Prop :=
  ∀ d d', (key, d) ∈ members → (key, d') ∈ members → d = d'

theorem Agrees.lastMember?_eq_some_iff {key : Text} {members : List (Text × Doc)}
    (h : Agrees key members) {d : Doc} :
    lastMember? key members = some d ↔ (key, d) ∈ members := by
  constructor
  · exact mem_of_lastMember?
  · intro hd
    cases hlast : lastMember? key members with
    | none => exact absurd rfl (lastMember?_eq_none_iff.1 hlast _ hd)
    | some d' => rw [h d d' hd (mem_of_lastMember? hlast)]

/-- A key that is written only once has members that agree. -/
theorem agrees_of_nodup {members : List (Text × Doc)} (h : (members.map Prod.fst).Nodup)
    (key : Text) : Agrees key members := by
  intro d d' hd hd'
  have heq := List.inj_on_of_nodup_map h hd hd' rfl
  exact (Prod.mk.inj heq).2

/-- A parent stays, and where there is none the first member that can be a parent becomes it. -/
theorem foldl_nextParent_eq_some {members : List (Text × Doc)} {parent : Option Doc} {p : Doc}
    (hall : ∀ q, (Value.parentKey, q) ∈ members → q = p) (hp : p.canBeParent = true)
    (h : parent = some p ∨ parent = none ∧ (Value.parentKey, p) ∈ members) :
    members.foldl nextParent parent = some p := by
  induction members generalizing parent with
  | nil =>
      rcases h with h | ⟨-, hmem⟩
      · exact h
      · cases hmem
  | cons m rest ih =>
      obtain ⟨key, d⟩ := m
      have hrest : ∀ q, (Value.parentKey, q) ∈ rest → q = p := by
        intro q hq
        exact hall q (List.mem_cons_of_mem _ hq)
      refine ih hrest ?_
      by_cases hkey : key = Value.parentKey
      · subst hkey
        obtain rfl := hall d List.mem_cons_self
        refine .inl ?_
        rcases h with rfl | ⟨rfl, -⟩
        · rw [nextParent, ite_self]
        · exact if_pos ⟨rfl, rfl, hp⟩
      · have hnext : nextParent parent (key, d) = parent := if_neg fun hall => hkey hall.1
        rw [hnext]
        rcases h with h | ⟨hnone, hmem⟩
        · exact .inl h
        · rcases List.mem_cons.1 hmem with heq | hmem
          · exact absurd (Prod.mk.inj heq).1.symm hkey
          · exact .inr ⟨hnone, hmem⟩

theorem Agrees.parentMember?_eq_some_iff {members : List (Text × Doc)}
    (h : Agrees Value.parentKey members) {p : Doc} :
    parentMember? members = some p ↔ (Value.parentKey, p) ∈ members ∧ p.canBeParent = true := by
  constructor
  · exact mem_of_parentMember?
  · rintro ⟨hmem, hp⟩
    exact foldl_nextParent_eq_some (fun q hq => h q p hq hmem) hp (.inr ⟨rfl, hmem⟩)

/-! ### Rearranged objects -/

/-- The members of an object in another order, with further members whose keys are different and new
to the object. -/
structure Rearranges (members extra members' : List (Text × Doc)) : Prop where
  perm : members'.Perm (members ++ extra)
  nodup : (extra.map Prod.fst).Nodup
  fresh : ∀ m ∈ extra, ∀ m' ∈ members, m'.1 ≠ m.1

section

variable {members extra members' : List (Text × Doc)} (h : Rearranges members extra members')
include h

theorem Rearranges.mem_iff {m : Text × Doc} : m ∈ members' ↔ m ∈ members ∨ m ∈ extra := by
  rw [h.perm.mem_iff, List.mem_append]

/-- Where the members of a key agree they still do. -/
theorem Rearranges.agrees {key : Text} (hagrees : Agrees key members) : Agrees key members' := by
  intro d d' hd hd'
  rcases h.mem_iff.1 hd with hd | hd
  · rcases h.mem_iff.1 hd' with hd' | hd'
    · exact hagrees d d' hd hd'
    · exact (h.fresh _ hd' _ hd rfl).elim
  · rcases h.mem_iff.1 hd' with hd' | hd'
    · exact (h.fresh _ hd _ hd' rfl).elim
    · have heq := List.inj_on_of_nodup_map h.nodup hd hd' rfl
      exact (Prod.mk.inj heq).2

/-- Where all keys are different they still are. -/
theorem Rearranges.nodup_keys (hnodup : (members.map Prod.fst).Nodup) :
    (members'.map Prod.fst).Nodup := by
  rw [(h.perm.map Prod.fst).nodup_iff, List.map_append, List.nodup_append]
  refine ⟨hnodup, h.nodup, ?_⟩
  intro key hkey key' hkey' heq
  obtain ⟨m, hm, rfl⟩ := List.mem_map.1 hkey
  obtain ⟨m', hm', rfl⟩ := List.mem_map.1 hkey'
  exact h.fresh m' hm' m hm heq

/-- The last member of a key that is not added. -/
theorem Rearranges.lastMember?_eq {key : Text} (hagrees : Agrees key members)
    (hkey : ∀ m ∈ extra, m.1 ≠ key) : lastMember? key members' = lastMember? key members := by
  ext d
  rw [(h.agrees hagrees).lastMember?_eq_some_iff, hagrees.lastMember?_eq_some_iff, h.mem_iff,
    or_iff_left]
  intro hd
  exact hkey _ hd rfl

/-- The parent of an object that names one already. -/
theorem Rearranges.parentMember?_eq (hagrees : Agrees Value.parentKey members)
    (hparent : ∀ m ∈ extra, m.1 ≠ Value.parentKey) :
    parentMember? members' = parentMember? members := by
  ext p
  rw [(h.agrees hagrees).parentMember?_eq_some_iff, hagrees.parentMember?_eq_some_iff, h.mem_iff,
    or_iff_left]
  intro hp
  exact hparent _ hp rfl

/-- A key that the object has already is not added. -/
theorem Rearranges.unused_of_mem {key : Text} {d : Doc} (hd : (key, d) ∈ members) :
    ∀ m ∈ extra, m.1 ≠ key := by
  intro m hm heq
  exact h.fresh m hm _ hd heq.symm

end

/-- **What an object has under an ordinary name stays.** -/
theorem Rearranges.get_eq {members extra members' : List (Text × Doc)}
    (h : Rearranges members extra members') {key : Text} (hkey : Value.IsOrdinary key)
    (hagrees : Agrees key members) (hparent : Agrees Value.parentKey members)
    (hnew : ∀ m ∈ extra, m.1 ≠ key)
    (hhas : ¬ (Value.ofDoc .lossless (.object members)).Lacks key) :
    (Value.ofDoc .lossless (.object members')).get key =
      (Value.ofDoc .lossless (.object members)).get key := by
  rw [hkey.get_eq, hkey.get_eq, Value.find?_ofDoc_object hkey.ne_parent,
    Value.find?_ofDoc_object hkey.ne_parent, h.lastMember?_eq hagrees hnew]
  by_cases hnamed : ∃ p, (Value.parentKey, p) ∈ members
  · obtain ⟨p, hp⟩ := hnamed
    rw [h.parentMember?_eq hparent (h.unused_of_mem hp)]
  · -- an object without a parent has the name itself
    have hunused : ∀ m ∈ members, m.1 ≠ Value.parentKey := by
      intro m hm heq
      exact hnamed ⟨m.2, heq ▸ hm⟩
    rcases unwritten_or_exists key members with hunwritten | ⟨d, hd, -⟩
    · have hinherits := not_inherits_of_isOrdinary (r := .lossless) hkey hunused
      exact absurd ((Value.lacks_ofDoc_iff hunwritten).2 hinherits) hhas
    · rw [hd]
      rfl

/-! ### What passes for a number -/

/-- The further members make an object pass for a number: one of them says so, or none of all the
members says anything and one of them is a parent that passes for a number. -/
def AddsNumber (members extra : List (Text × Doc)) : Prop :=
  (Value.tokenKey, .bool true) ∈ extra ∨
    (∀ m ∈ members ++ extra, m.1 ≠ Value.tokenKey) ∧
      ∃ p : Doc, (Value.parentKey, p) ∈ extra ∧ p.PassesForNumber

/-- Only two names can make an object pass for a number. -/
theorem not_addsNumber_of_unused {members extra : List (Text × Doc)}
    (htoken : ∀ m ∈ extra, m.1 ≠ Value.tokenKey) (hparent : ∀ m ∈ extra, m.1 ≠ Value.parentKey) :
    ¬ AddsNumber members extra := by
  rintro (hsaid | ⟨-, p, hp, -⟩)
  · exact htoken _ hsaid rfl
  · exact hparent _ hp rfl

theorem Doc.PassesForNumber.canBeParent {d : Doc} (h : d.PassesForNumber) :
    d.canBeParent = true := by
  cases h <;> rfl

/-- **When a rearranged object passes for a number.** -/
theorem Rearranges.passesForNumber_iff {members extra members' : List (Text × Doc)}
    (h : Rearranges members extra members') (htoken : Agrees Value.tokenKey members)
    (hparent : Agrees Value.parentKey members) (hnot : ¬ (Doc.object members).PassesForNumber) :
    (Doc.object members').PassesForNumber ↔ AddsNumber members extra := by
  have hunused : (∀ m ∈ members', m.1 ≠ Value.tokenKey) ↔
      ∀ m ∈ members ++ extra, m.1 ≠ Value.tokenKey := by
    simp only [h.perm.mem_iff]
  constructor
  · intro hpasses
    cases hpasses with
    | said hlast =>
        rcases h.mem_iff.1 (mem_of_lastMember? hlast) with hmem | hmem
        · exact absurd (.said (htoken.lastMember?_eq_some_iff.2 hmem)) hnot
        · exact .inl hmem
    | inherited hown hp hpasses =>
        have hnone := lastMember?_eq_none_iff.1 hown
        obtain ⟨hmem, hcan⟩ := mem_of_parentMember? hp
        rcases h.mem_iff.1 hmem with hmem | hmem
        · -- the object had the parent before
          refine absurd (.inherited ?_ (hparent.parentMember?_eq_some_iff.2 ⟨hmem, hcan⟩) hpasses)
            hnot
          exact lastMember?_eq_none_iff.2 fun m hm => hnone m (h.mem_iff.2 (.inl hm))
        · exact .inr ⟨hunused.1 hnone, _, hmem, hpasses⟩
  · rintro (hsaid | ⟨hnone, p, hmem, hpasses⟩)
    · exact .said ((h.agrees htoken).lastMember?_eq_some_iff.2 (h.mem_iff.2 (.inr hsaid)))
    · refine .inherited (lastMember?_eq_none_iff.2 (hunused.2 hnone)) ?_ hpasses
      exact (h.agrees hparent).parentMember?_eq_some_iff.2
        ⟨h.mem_iff.2 (.inr hmem), hpasses.canBeParent⟩

end Json

end WireCodec

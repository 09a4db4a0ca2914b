import WireCodec.Proofs.Blob
import WireCodec.Proofs.FieldPath
import WireCodec.Proofs.Hex.Verdict
import WireCodec.Proofs.Json.Quoted

/-
**What the decoders of bytes log.**

A text that could be in either base is tried in base sixteen first, and an entry is written if that
fails.  The other base comes after the entry, so what comes of it does not matter.  A decode that
does not get to a text, or to a text that tells its base at one of its ends, writes nothing.

Main definitions:

* `Blob.Decode`, `Blob.Decode.run`: a decode in any form, and the log after several;
* `Json.Value.Follows`, `Blob.Decode.Reaches`: the text that a decode gets to;
* `Blob.FallsBack`, `Blob.Describes`: a text that is tried in base sixty-four after base sixteen,
  and the entry about it;
* `Blob.Logs`: the entries that some decodes write.

Main results:

* `Blob.log_of_fallsBack`, `Blob.log_of_not_fallsBack`: one entry for a text or none;
* `Blob.Decode.logsAsText`: the log of one decode is that of the text that it gets to;
* `Blob.run_logs`: **the log of any sequence of decodes**.
-/

set_option relaxedAutoImplicit false
set_option autoImplicit false

namespace WireCodec

open Json (Value)

namespace Blob

/-! ### Texts -/

/-- Neither end of the text tells its base, and it is not one or more digit pairs. -/
structure FallsBack (t : Text) : Prop where
  not_marked : ¬ Base16.mark <+: t
  not_padded : t.getLast? ≠ some Base64.pad
  not_pairs : ¬ (t ≠ [] ∧ t.length % 2 = 0 ∧ ∀ u ∈ t, u ∈ Base16.digitUnits)

/-- The entry has the length of the text and tells why it is not base sixteen. -/
structure Describes (t : Text) (entry : LogEntry) : Prop where
  length : entry.length = t.length
  tooShort : entry.reason = "too_short" ↔ t = []
  oddLength : entry.reason = "invalid_length" ↔ t.length % 2 = 1
  notDigits : entry.reason = "invalid_hex_chars" ↔ t ≠ [] ∧ t.length % 2 = 0

section

variable {t : Text}

/-- Without the mark the reader of base sixteen looks at the whole text, at its length first. -/
theorem reason_of_eq_error (hmark : ¬ Base16.mark <+: t) {e : Hex.Error}
    (h : Hex.ofText t = .error e) :
    (t = [] ∧ e.reason = "too_short") ∨
    (t ≠ [] ∧ t.length % 2 = 1 ∧ e.reason = "invalid_length") ∨
    (t ≠ [] ∧ t.length % 2 = 0 ∧ e.reason = "invalid_hex_chars") := by
  have hunmarks : Base16.Unmarks t t := .bare hmark
  by_cases hnil : t = []
  · subst hnil
    obtain rfl : Hex.Error.tooShort = e := Except.error.inj h
    exact .inl ⟨rfl, rfl⟩
  rcases Nat.mod_two_eq_zero_or_one t.length with heven | hodd
  · cases hdecode : Base16.decode t with
    | ok bytes =>
        rw [Hex.ofText_of_writes hnil (Base16.decode_eq_ok_iff.1 hdecode)] at h
        cases h
    | error fault =>
        rw [Hex.ofText_of_fault hunmarks hnil heven hdecode] at h
        obtain rfl := Except.error.inj h
        exact .inr (.inr ⟨hnil, heven, rfl⟩)
  · rw [Hex.ofText_of_odd hunmarks hnil hodd] at h
    obtain rfl := Except.error.inj h
    exact .inr (.inl ⟨hnil, hodd, rfl⟩)

theorem describes_of_eq_error (hmark : ¬ Base16.mark <+: t) {e : Hex.Error}
    (h : Hex.ofText t = .error e) : Describes t ⟨t.length, e⟩ := by
  have hentry : ∀ length, LogEntry.reason ⟨length, e⟩ = e.reason := fun _ => rfl
  rcases reason_of_eq_error hmark h with
    ⟨rfl, hreason⟩ | ⟨hne, hodd, hreason⟩ | ⟨hne, heven, hreason⟩
  · exact ⟨rfl, by simp [hentry, hreason], by simp [hentry, hreason], by simp [hentry, hreason]⟩
  · exact ⟨rfl, by simp [hentry, hreason, hne], by simp [hentry, hreason, hodd],
      by simp [hentry, hreason, hodd]⟩
  · exact ⟨rfl, by simp [hentry, hreason, hne], by simp [hentry, hreason, heven],
      by simp [hentry, hreason, hne, heven]⟩

/-- A text that falls back is read in base sixty-four, whatever comes of it. -/
theorem FallsBack.outcome_eq (h : FallsBack t) : (ofText t).outcome = ofBase64 t := by
  rcases bare_or_needsBase64 h.not_marked with ⟨-, hne, hwrites⟩ | hneeds
  · exact absurd ⟨hne, Base16.exists_writes_iff.1 hwrites⟩ h.not_pairs
  · exact outcome_ofText_base64 hneeds

/-- It is logged once, before that. -/
theorem log_of_fallsBack (h : FallsBack t) :
    ∃ entry, Describes t entry ∧ (ofText t).log = [entry] := by
  cases hread : Hex.ofText t with
  | ok b =>
      obtain ⟨hne, hwrites⟩ := Hex.ofText_eq_ok_iff.1 hread
      rw [Base16.unmarked_of_not_marked h.not_marked] at hwrites
      exact absurd ⟨hne, Base16.exists_writes_iff.1 ⟨_, hwrites⟩⟩ h.not_pairs
  | error e =>
      rw [ofText_of_hex_error h.not_marked h.not_padded hread]
      exact ⟨_, describes_of_eq_error h.not_marked hread, rfl⟩

/-- Nothing is logged about any other text. -/
theorem log_of_not_fallsBack (h : ¬ FallsBack t) : (ofText t).log = [] := by
  by_cases hmark : Base16.mark <+: t
  · rw [ofText_of_marked hmark]
    rfl
  by_cases hpad : t.getLast? = some Base64.pad
  · rw [ofText_of_padded hmark hpad]
    rfl
  · by_cases hpairs : t ≠ [] ∧ t.length % 2 = 0 ∧ ∀ u ∈ t, u ∈ Base16.digitUnits
    · obtain ⟨bytes, hwrites⟩ := Base16.exists_writes_iff.2 hpairs.2
      rw [ofText_of_writes hpairs.1 hwrites]
      rfl
    · exact absurd ⟨hmark, hpad, hpairs⟩ h

end

end Blob

/-! ### Decodes -/

/-- The names lead from value to value, each to a member that may be the object's own or that of a
parent. -/
inductive Json.Value.Follows : List Text → Value → Value → Prop where
  | nil (v : Value) : Follows [] v v
  | cons {field : Text} {fields : List Text} {v w leaf : Value} (hmember : v.member field = .ok w)
      (h : Follows fields w leaf) : Follows (field :: fields) v leaf

/-- Nothing leads on from null or from a missing value. -/
theorem Json.Value.Follows.ne {fields : List Text} {v : Value} {t : Text}
    (h : Value.Follows fields v (.text t)) : v ≠ .missing ∧ v ≠ .null := by
  cases h with
  | nil => exact ⟨nofun, nofun⟩
  | cons hmember =>
      constructor <;>
        · rintro rfl
          cases hmember

theorem requiredField_of_member {v w : Value} {field : Text} (h : v.member field = .ok w)
    (hw : w ≠ .missing ∧ w ≠ .null) : requiredField v field = .ok w := by
  rw [requiredField, h]
  cases w with
  | missing => exact absurd rfl hw.1
  | null => exact absurd rfl hw.2
  | bool | text | double | integer | token | array | object | root | method => rfl

theorem member_of_requiredField {v w : Value} {field : Text} (h : requiredField v field = .ok w) :
    v.member field = .ok w := by
  rw [requiredField] at h
  split at h
  · cases h
  · cases h
  · cases h
  · next hmember => rw [hmember, Except.ok.inj h]

namespace Blob

/-- A decode of bytes in one of its forms. -/
inductive Decode where
  | text (t : Text)
  | raw (raw : Text)
  | value (v : Value)
  | validity (t : Text)
  /-- A field of a field, and so on, of an object. -/
  | field (fields : List Text) (object : Value)

namespace Decode

/-- The entries that a decode writes. -/
def log : Decode → List LogEntry
  | .text t => (ofText t).log
  | .raw s => (decode s).log
  | .value v => (ofValue v).log
  | .validity t => (Blob.validity t).log
  | .field fields object => (readPath Logged.readField fields ofValue object).log

/-- The log after some decodes, one after another, whatever comes of each. -/
def run (log : List LogEntry) (ds : List Decode) : List LogEntry :=
  ds.foldl (fun log d => log ++ d.log) log

/-- The decode gets to the text. -/
def Reaches : Decode → Text → Prop
  | .text s, t => s = t
  | .raw s, t => Json.QuotesSpaced s t
  | .value v, t => v = .text t
  | .validity s, t => s = t
  | .field fields object, t => Value.Follows fields object (.text t)

end Decode

/-- The log is that of the one text that is reached, and empty if none is. -/
inductive LogsAsText (reached : Text → Prop) : List LogEntry → Prop where
  | text {t : Text} (h : ∀ t', reached t' ↔ t = t') : LogsAsText reached (ofText t).log
  | none (h : ∀ t, ¬ reached t) : LogsAsText reached []

theorem LogsAsText.congr {reached reached' : Text → Prop} {log : List LogEntry}
    (h : LogsAsText reached log) (hiff : ∀ t, reached t ↔ reached' t) :
    LogsAsText reached' log := by
  cases h with
  | text h => exact .text fun t' => (hiff t').symm.trans (h t')
  | none h => exact .none fun t => mt (hiff t).2 (h t)

theorem log_ofValue_of_ne_text {v : Value} (h : ∀ t, v ≠ .text t) : (ofValue v).log = [] := by
  cases v with
  | text t => exact absurd rfl (h t)
  | missing | null | bool | double | integer | token | array | object | root | method => rfl

theorem logsAsText_ofValue (v : Value) : LogsAsText (fun t => v = .text t) (ofValue v).log := by
  by_cases h : ∃ t, v = .text t
  · obtain ⟨t, rfl⟩ := h
    exact .text fun t' => by rw [Value.text.injEq]
  · rw [log_ofValue_of_ne_text (not_exists.1 h)]
    exact .none (not_exists.1 h)

theorem logsAsText_decode (raw : Text) : LogsAsText (Json.QuotesSpaced raw) (decode raw).log := by
  rw [decode]
  rcases readJson_cases raw .malformedBytes "bytes" with
    ⟨t, -, hread⟩ | ⟨hnone, ⟨fault, hread⟩ | ⟨v, hv, hread⟩⟩
  · rw [hread]
    refine .text fun t' => ?_
    rw [← readJson_eq_text_iff, hread, Except.ok.injEq, Value.text.injEq]
  · rw [hread]
    exact .none hnone
  · rw [hread]
    simp only [log_ofValue_of_ne_text hv]
    exact .none hnone

/-- Along a path the log is passed on, and a field that is missing writes nothing. -/
theorem logsAsText_readPath (fields : List Text) (v : Value) :
    LogsAsText (fun t => Value.Follows fields v (.text t))
      (readPath Logged.readField fields ofValue v).log := by
  induction fields generalizing v with
  | nil =>
      refine (logsAsText_ofValue v).congr fun t => ⟨?_, ?_⟩
      · rintro rfl
        exact .nil _
      · intro h
        cases h
        rfl
  | cons field fields ih =>
      rw [readPath_cons, Logged.readField]
      cases hfield : requiredField v field with
      | error e =>
          refine .none fun t h => ?_
          cases h with
          | cons hmember h =>
              rw [requiredField_of_member hmember h.ne] at hfield
              cases hfield
      | ok w =>
          have hmember := member_of_requiredField hfield
          refine (ih w).congr fun t => ⟨.cons hmember, fun h => ?_⟩
          cases h with
          | cons hmember' h =>
              rw [hmember] at hmember'
              rwa [Except.ok.inj hmember']

/-- **The log of one decode is that of the text that it gets to.** -/
theorem Decode.logsAsText (d : Decode) : LogsAsText d.Reaches d.log := by
  cases d with
  | text t => exact .text fun _ => Iff.rfl
  | raw raw => exact logsAsText_decode raw
  | value v => exact logsAsText_ofValue v
  | validity t => exact .text fun _ => Iff.rfl
  | field fields object => exact logsAsText_readPath fields object

/-! ### Sequences of decodes -/

/-- The entries that some decodes write, in order: one for a decode that gets to a text which falls
back, and none for any other. -/
inductive Logs : List Decode → List LogEntry → Prop where
  | nil : Logs [] []
  | entry {d : Decode} {t : Text} {entry : LogEntry} {ds : List Decode} {entries : List LogEntry}
      (hreaches : d.Reaches t) (hfalls : FallsBack t) (hentry : Describes t entry)
      (h : Logs ds entries) : Logs (d :: ds) (entry :: entries)
  | silent {d : Decode} {ds : List Decode} {entries : List LogEntry}
      (hnone : ∀ t, d.Reaches t → ¬ FallsBack t) (h : Logs ds entries) : Logs (d :: ds) entries

/-- One more decode in front. -/
theorem Logs.cons {d : Decode} {ds : List Decode} {entries : List LogEntry} (h : Logs ds entries) :
    Logs (d :: ds) (d.log ++ entries) := by
  have hlog := d.logsAsText
  generalize d.log = log at hlog
  cases hlog with
  | none hnone => exact .silent (fun t ht => absurd ht (hnone t)) h
  | @text t hreached =>
      by_cases hfalls : FallsBack t
      · obtain ⟨entry, hentry, hlog⟩ := log_of_fallsBack hfalls
        rw [hlog]
        exact .entry ((hreached t).2 rfl) hfalls hentry h
      · rw [log_of_not_fallsBack hfalls]
        refine .silent (fun t' ht' => ?_) h
        rwa [← (hreached t').1 ht']

/-- What is in the log stays there, and the entries of the decodes follow. -/
theorem exists_run_eq (log : List LogEntry) (ds : List Decode) :
    ∃ entries, Decode.run log ds = log ++ entries ∧ Logs ds entries := by
  induction ds generalizing log with
  | nil => exact ⟨[], (List.append_nil log).symm, .nil⟩
  | cons d ds ih =>
      obtain ⟨entries, hrun, hlogs⟩ := ih (log ++ d.log)
      refine ⟨d.log ++ entries, ?_, hlogs.cons⟩
      rw [← List.append_assoc, ← hrun]
      rfl

/-- **The log of any sequence of decodes.**  One entry is written for each decode that gets to a
text which falls back, and none for any other, in the order of the decodes.  The entry has the
length of the text and the reason why it is not base sixteen.  The text is then read in base
sixty-four, and whatever comes of that, the entry stays. -/
theorem run_logs :
    (∀ (log : List LogEntry) (ds : List Decode),
      ∃ entries, Decode.run log ds = log ++ entries ∧ Logs ds entries) ∧
    ∀ t, FallsBack t → (ofText t).outcome = ofBase64 t :=
  ⟨exists_run_eq, fun _ h => h.outcome_eq⟩

end Blob

end WireCodec

import WireCodec.Config
import WireCodec.Proofs.Text

/-
**What an environment asks for.**

A level is asked for by its name in any ASCII case between any white space, and by nothing else: no
letter of another script becomes part of a name.  What is not asked for gets its default, and a
configuration asks for itself, since the name of a level is read as this level, any mode that is set
is kept, and the name of the service is never empty.

Main definitions:

* `Environment.Asks`: the level that a variable asks for;
* `Text.Respelled`: a text with more white space around it and its ASCII letters in another case;
* `Config.environment`: the variables that ask for a configuration.

Main results:

* `LogLevel.ofName?_eq_some_iff`: the names of the levels are apart;
* `Config.readLogLevel_eq`: the level does not depend on where words end;
* `Config.logLevel_load_eq_iff`: the level is the one that is asked for, or the default;
* `Config.load_settled`: **loading answers what is asked for and nothing else, and loads its own
  answer again**.
-/

set_option relaxedAutoImplicit false
set_option autoImplicit false

namespace WireCodec

/-! ### Names of levels -/

namespace LogLevel

theorem mem_all (level : LogLevel) : level ∈ all := by
  cases level <;> decide

/-- A level is found by its name only. -/
theorem ofName?_eq_some_iff {t : Text} {level : LogLevel} :
    ofName? t = some level ↔ t = level.name := by
  constructor
  · intro h
    rw [ofName?] at h
    have hname := List.find?_some h
    exact (eq_of_beq hname).symm
  · rintro rfl
    cases level <;> rfl

section Names

variable (level : LogLevel)

theorem isPlain_name : Text.IsPlain level.name := by
  have hall : level.name.all fun u => u.toNat < 128 && u != Text.unit 'k' := by
    cases level <;> rfl
  simpa [Text.IsPlain] using hall

theorem lower_name : Text.lower level.name = level.name := by
  cases level <;> rfl

theorem trim_name : Text.trim level.name = level.name := by
  cases level <;> rfl

end Names

/-- A name is found among all small letters as it is among those of the ASCII capitals. -/
theorem ofName?_lowercase (ends : Text.WordEnd) (t : Text) :
    ofName? (Text.lowercase ends t) = ofName? (Text.lower t) := by
  refine Option.ext fun level => ?_
  rw [ofName?_eq_some_iff, ofName?_eq_some_iff, Text.lowercase_eq_iff ends level.isPlain_name]

theorem ofName?_lower_eq_some_iff {t : Text} {level : LogLevel} :
    ofName? (Text.lower t) = some level ↔ Text.SameLetters t level.name := by
  rw [ofName?_eq_some_iff, Text.sameLetters_iff, lower_name]

end LogLevel

/-! ### The level -/

/-- The variable asks for a level: between its white space stands the name of the level, in any
ASCII case. -/
def Environment.Asks (env : Environment) (level : LogLevel) : Prop :=
  ∃ t core, env.logLevel = some t ∧ Text.TrimsTo t core ∧ Text.SameLetters core level.name

/-- The text is another one with ASCII letters in another case and with more white space around. -/
def Text.Respelled (t t' : Text) : Prop :=
  ∃ lead core trail : Text, (∀ u ∈ lead, isBlank u) ∧ (∀ u ∈ trail, isBlank u) ∧
    SameLetters t core ∧ t' = lead ++ core ++ trail

namespace Config

theorem readLogLevel_eq_lower (t : Text) :
    readLogLevel t = (LogLevel.ofName? (Text.lower (Text.trim t))).getD defaultLogLevel := by
  rw [readLogLevel, LogLevel.ofName?_lowercase]

/-- The level does not depend on where words end. -/
theorem readLogLevel_eq (ends : Text.WordEnd) (t : Text) :
    readLogLevel t =
      (LogLevel.ofName? (Text.lowercase ends (Text.trim t))).getD defaultLogLevel := by
  rw [readLogLevel_eq_lower, LogLevel.ofName?_lowercase]

theorem readLogLevel_name (level : LogLevel) : readLogLevel level.name = level := by
  rw [readLogLevel_eq_lower, level.trim_name, level.lower_name, LogLevel.ofName?_eq_some_iff.2 rfl,
    Option.getD_some]

/-- White space around a text and the case of its ASCII letters are no part of its level. -/
theorem readLogLevel_respelled {t t' : Text} (h : Text.Respelled t t') :
    readLogLevel t' = readLogLevel t := by
  obtain ⟨lead, core, trail, hlead, htrail, hsame, rfl⟩ := h
  rw [readLogLevel_eq_lower, readLogLevel_eq_lower, Text.trim_between hlead htrail,
    Text.lower_trim, ← Text.sameLetters_iff.1 hsame, ← Text.lower_trim]

theorem asks_iff {env : Environment} {t : Text} (ht : env.logLevel = some t) {level : LogLevel} :
    env.Asks level ↔ LogLevel.ofName? (Text.lower (Text.trim t)) = some level := by
  rw [LogLevel.ofName?_lower_eq_some_iff]
  constructor
  · rintro ⟨t', core, ht', hcore, hsame⟩
    obtain rfl := Option.some_inj.1 (ht.symm.trans ht')
    rwa [Text.trimsTo_iff.1 hcore]
  · intro hsame
    exact ⟨t, Text.trim t, ht, Text.trimsTo_iff.2 rfl, hsame⟩

/-- **The level is the one that is asked for, or the default where none is.** -/
theorem logLevel_load_eq_iff (env : Environment) (level : LogLevel) :
    (load env).logLevel = level ↔
      env.Asks level ∨ level = defaultLogLevel ∧ ∀ other, ¬ env.Asks other := by
  cases ht : env.logLevel with
  | none =>
      have hnone : ∀ other, ¬ env.Asks other := by
        rintro other ⟨t, _, ht', _⟩
        cases ht.symm.trans ht'
      simp only [load, ht, Option.map_none, Option.getD_none, hnone, false_or, not_false_eq_true,
        implies_true, and_true]
      exact eq_comm
  | some t =>
      simp only [load, ht, Option.map_some, Option.getD_some, readLogLevel_eq_lower, asks_iff ht]
      cases LogLevel.ofName? (Text.lower (Text.trim t)) with
      | none => simp [eq_comm]
      | some asked => simp

/-! ### The answer as an environment -/

/-- The variables that ask for a configuration. -/
def environment (c : Config) : Environment where
  logLevel := some c.logLevel.name
  serviceName := some c.serviceName
  mode := some c.mode

theorem serviceName_load_ne_nil (env : Environment) : (load env).serviceName ≠ [] := by
  simp only [load]
  split
  · split
    · decide
    · assumption
  · decide

/-- A configuration asks for itself unless it has no name for the service. -/
theorem load_environment {c : Config} (hservice : c.serviceName ≠ []) : load c.environment = c := by
  simp only [load, environment, Option.map_some, Option.getD_some, readLogLevel_name,
    if_neg hservice]

end Config

/-! ### The logger -/

theorem LoggerSettings.mem_enabled_iff {s : LoggerSettings} {level : LogLevel} :
    level ∈ s.enabled ↔ level.rank ≤ s.level.rank := by
  simp [enabled, LogLevel.mem_all]

/-- Only the least urgent level stands behind `debug`. -/
theorem LogLevel.rank_debug_le_iff {level : LogLevel} :
    debug.rank ≤ level.rank ↔ level = debug ∨ level = silly := by
  cases level <;> decide

namespace Config

/-! ### What an environment gets -/

/-- **Loading answers what is asked for and nothing else, and loads its own answer again.**  The
level is one of the levels: the one whose name stands in the variable, apart from white space at the
ends and ASCII case, or `warn` if there is none, so that more white space and another case change
nothing.  The name of the service is never empty.  The answer, given as an environment, is the
answer again, and the logger writes `debug` entries exactly if `debug` or `silly` is asked for. -/
theorem load_settled (env : Environment) :
    (load env).logLevel ∈ LogLevel.all ∧
    (∀ level, (load env).logLevel = level ↔
      env.Asks level ∨ level = .warn ∧ ∀ other, ¬ env.Asks other) ∧
    (∀ t t', env.logLevel = some t → Text.Respelled t t' →
      (load { env with logLevel := some t' }).logLevel = (load env).logLevel) ∧
    (load env).serviceName ≠ [] ∧
    load (load env).environment = load env ∧
    (.debug ∈ (load env).logger.enabled ↔ env.Asks .debug ∨ env.Asks .silly) := by
  have hlevel := logLevel_load_eq_iff env
  have hservice := serviceName_load_ne_nil env
  refine ⟨LogLevel.mem_all _, hlevel, ?_, hservice, load_environment hservice, ?_⟩
  · intro t t' ht hrespelled
    simp only [load, ht, Option.map_some, Option.getD_some, readLogLevel_respelled hrespelled]
  · have hasked : ∀ level, level ≠ defaultLogLevel →
        ((load env).logLevel = level ↔ env.Asks level) :=
      fun level hne => by simp [hlevel, hne]
    rw [LoggerSettings.mem_enabled_iff]
    exact LogLevel.rank_debug_le_iff.trans
      (or_congr (hasked _ (by decide)) (hasked _ (by decide)))

/-- A level in letters of both cases between white space, with more of it and the other case. -/
theorem load_settled_dressed :
    let env : Environment := ⟨some " DeBuG\uFEFF", some "", none⟩
    let t' : Text := "\n\u3000 dEbUg\uFEFF\t"
    env.logLevel = some " DeBuG\uFEFF" ∧ Text.Respelled " DeBuG\uFEFF" t' ∧
    (load env).logLevel = .debug ∧
    (load { env with logLevel := some t' }).logLevel = (load env).logLevel ∧
    load (load env).environment = load env ∧ .debug ∈ (load env).logger.enabled := by
  intro env t'
  obtain ⟨-, hlevel, hrespelled, -, hagain, hdebug⟩ := load_settled env
  have hasks : env.Asks .debug :=
    ⟨_, "DeBuG", rfl, Text.trimsTo_iff.2 (by decide), Text.sameLetters_iff.2 (by decide)⟩
  have hdressed : Text.Respelled " DeBuG\uFEFF" t' :=
    ⟨"\n\u3000", " dEbUg\uFEFF", "\t", List.all_eq_true.1 rfl, List.all_eq_true.1 rfl,
      Text.sameLetters_iff.2 (by decide), rfl⟩
  exact ⟨rfl, hdressed, (hlevel _).2 (.inl hasks), hrespelled _ _ rfl hdressed, hagain,
    hdebug.2 (.inl hasks)⟩

/-- A capital outside ASCII becomes a letter of a name and a mark, which is no name. -/
example : (load ⟨some "\u0130NFO", none, none⟩).logLevel = .warn := by decide +kernel

end Config

end WireCodec

import WireCodec.Failure

/-
**Computations that may fail and leave log entries.**

The one thing that this library logs is that a text of bytes is not base sixteen and is tried as
base sixty-four.  Entries stay in the log when the computation fails later on.

Main definitions:

* `LogEntry`: an entry;
* `Logged`: an outcome with the entries written on the way to it;
* `Logged.ofExcept`, `Logged.record`, `Logged.mapFailure`: the ways to build one.
-/

set_option relaxedAutoImplicit false
set_option autoImplicit false

namespace WireCodec

/-- A text of bytes is not base sixteen and is tried as base sixty-four. -/
structure LogEntry where
  /-- The length of the text. -/
  length : Nat
  /-- Why the text is not base sixteen. -/
  error : Hex.Error
  deriving DecidableEq, Repr

/-- The wording of every entry. -/
def LogEntry.message : Text := "bytes are not hex, trying base64"

/-- The code of an entry. -/
def LogEntry.reason (entry : LogEntry) : String := entry.error.reason

/-- An outcome with the entries written on the way to it, oldest first. -/
structure Logged (α : Type) where
  outcome : Except Failure α
  log : List LogEntry

namespace Logged

/-- An outcome that nothing is logged about. -/
def ofExcept {α : Type} (outcome : Except Failure α) : Logged α := ⟨outcome, []⟩

/-- One computation after another: the second runs if the first succeeds. -/
def bind {α β : Type} (x : Logged α) (f : α → Logged β) : Logged β :=
  match x.outcome with
  | .error e => ⟨.error e, x.log⟩
  | .ok a => ⟨(f a).outcome, x.log ++ (f a).log⟩

instance : Monad Logged where
  pure a := ofExcept (.ok a)
  bind := bind

/-- An entry is written. -/
def record (entry : LogEntry) : Logged Unit := ⟨.ok (), [entry]⟩

/-- Another failure in the place of the one that occurred. -/
def mapFailure {α : Type} (f : Failure → Failure) (x : Logged α) : Logged α :=
  ⟨x.outcome.mapError f, x.log⟩

end Logged

end WireCodec

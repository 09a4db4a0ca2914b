import WireCodec.Text.Casing

/-
**Configuration from the environment.**

Three variables are read: the log level, the name of the service and the mode.  What is absent or
unusable gets a default.

Main definitions:

* `LogLevel`, `LogLevel.all`, `LogLevel.ofName?`: the log levels in order, by name;
* `Environment`, `Config`, `Config.load`: the variables and the configuration they give;
* `LoggerSettings`, `Config.logger`: what the logger does with the configuration.
-/

set_option relaxedAutoImplicit false
set_option autoImplicit false

namespace WireCodec

/-! ### Log levels -/

/-- The log levels. -/
inductive LogLevel where
  | error
  | warn
  | info
  | http
  | verbose
  | debug
  | silly
  deriving DecidableEq, Repr

namespace LogLevel

/-- The log levels, the most urgent first. -/
def all : List LogLevel := [.error, .warn, .info, .http, .verbose, .debug, .silly]

/-- The name of a log level. -/
def name : LogLevel → Text
  | .error => "error"
  | .warn => "warn"
  | .info => "info"
  | .http => "http"
  | .verbose => "verbose"
  | .debug => "debug"
  | .silly => "silly"

/-- The log level of a name. -/
def ofName? (t : Text) : Option LogLevel := all.find? fun level => level.name == t

/-- The text names a log level. -/
def isName (t : Text) : Bool := all.any fun level => level.name == t

/-- How many levels are more urgent. -/
def rank : LogLevel → Nat
  | .error => 0
  | .warn => 1
  | .info => 2
  | .http => 3
  | .verbose => 4
  | .debug => 5
  | .silly => 6

end LogLevel

/-! ### The configuration -/

/-- The variables that are read, where they are set. -/
structure Environment where
  logLevel : Option Text
  serviceName : Option Text
  mode : Option Text
  deriving DecidableEq, Repr

/-- A configuration. -/
structure Config where
  logLevel : LogLevel
  mode : Text
  serviceName : Text
  deriving DecidableEq, Repr

namespace Config

/-- The log level where none is named. -/
def defaultLogLevel : LogLevel := .warn
/-- The mode where none is set. -/
def defaultMode : Text := "development"
/-- The name of the service where none is set. -/
def defaultServiceName : Text := "node-api-json-codec"
/-- The mode in which the console writes JSON. -/
def productionMode : Text := "production"

/-- The log level that a text names, apart from white space at its ends and from letter case.  No
name has a sigma, so it does not matter where words end. -/
def readLogLevel (t : Text) : LogLevel :=
  (LogLevel.ofName? (Text.lowercase Text.inWord (Text.trim t))).getD defaultLogLevel

/-- The configuration that the environment gives.  An empty name of the service counts as none; an
empty mode is a mode. -/
def load (env : Environment) : Config where
  logLevel := (env.logLevel.map readLogLevel).getD defaultLogLevel
  mode := env.mode.getD defaultMode
  serviceName :=
    match env.serviceName with
    | some name => if name = [] then defaultServiceName else name
    | none => defaultServiceName

end Config

/-! ### The logger -/

/-- How the console writes log entries. -/
inductive ConsoleFormat where
  | json
  | simple
  deriving DecidableEq, Repr

/-- The settings of the logger. -/
structure LoggerSettings where
  level : LogLevel
  service : Text
  consoleFormat : ConsoleFormat
  deriving DecidableEq, Repr

/-- The settings of the logger under a configuration. -/
def Config.logger (c : Config) : LoggerSettings where
  level := c.logLevel
  service := c.serviceName
  consoleFormat := if c.mode = productionMode then .json else .simple

/-- The levels that the logger writes: its own and the more urgent ones. -/
def LoggerSettings.enabled (s : LoggerSettings) : List LogLevel :=
  LogLevel.all.filter fun level => level.rank ≤ s.level.rank

end WireCodec

/-!
# Log records

A record has a level, a target and a message, and is written as one line. A logger lets through
the records at or above its level; once one logger is installed no second one can be.
-/

namespace PaeKernel

/-- The importance of a record, most important first. -/
inductive Level where
  | error
  | warn
  | info
  | debug
  | trace
  deriving Repr, DecidableEq

/-- The word a line starts with. -/
def Level.name : Level → String
  | .error => "ERROR"
  | .warn => "WARN"
  | .info => "INFO"
  | .debug => "DEBUG"
  | .trace => "TRACE"

/-- The number of levels at least as important. -/
def Level.rank : Level → Nat
  | .error => 1
  | .warn => 2
  | .info => 3
  | .debug => 4
  | .trace => 5

/-- One entry of the log. -/
structure Record where
  level : Level
  target : String
  message : String
  deriving Repr, DecidableEq

/-- A record as a line of text. -/
def Record.line (r : Record) : String :=
  s!"[{r.level.name}] {r.target}: {r.message}\n"

/-- Where the debug console is reached, unless a logger is told otherwise. -/
def debugConsole : Nat := 0xE9

/-- A filter in front of a console; with no greatest level it lets nothing through. -/
structure Logger where
  greatest : Option Level
  console : Nat := debugConsole
  deriving Repr, DecidableEq

/-- Whether records of this level are written. -/
def Logger.enabled (l : Logger) (level : Level) : Bool :=
  match l.greatest with
  | none => false
  | some g => level.rank ≤ g.rank

/-- The text of the refusal to install a second logger. -/
def Logger.installedTwice : String :=
  "attempted to set a logger after the logging system was already initialized"

/-- Installs a logger where there is none yet. -/
def Logger.install (l : Logger) : Option Logger → Except String Logger
  | none => .ok l
  | some _ => .error installedTwice

theorem Logger.enabled_iff {l : Logger} {level : Level} :
    l.enabled level = true ↔ ∃ g, l.greatest = some g ∧ level.rank ≤ g.rank := by
  cases h : l.greatest <;> simp [Logger.enabled, h]

end PaeKernel

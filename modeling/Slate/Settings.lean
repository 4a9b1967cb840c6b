/-! # Settings of one run -/

namespace Slate
set_option autoImplicit false

structure Settings where
  verbosity : Nat := 0
  /-- No logs and no diagnostics, whatever the verbosity. -/
  quiet : Bool := false
  dumpTree : Bool := false
  dumpIr : Bool := false
  maxCallDepth : Nat := 1024
  deriving DecidableEq

namespace Settings

def effectiveVerbosity (settings : Settings) : Nat :=
  if settings.quiet then 0 else settings.verbosity

def logsPhases (settings : Settings) : Bool := decide (1 ≤ settings.effectiveVerbosity)

def logsDebug (settings : Settings) : Bool := decide (2 ≤ settings.effectiveVerbosity)

def logsTrace (settings : Settings) : Bool := decide (3 ≤ settings.effectiveVerbosity)

end Settings
end Slate

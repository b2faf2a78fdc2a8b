/-! # Notices

What an operation has to say besides its result: a severity, the part of the
library that speaks, and a text. Operations return their notices in order.
-/

namespace Bitplane

inductive Severity where
  | warn | info | debug | trace
  deriving DecidableEq, Repr

/-- Severe notices have a low rank. -/
def Severity.rank : Severity → Nat
  | .warn => 0
  | .info => 1
  | .debug => 2
  | .trace => 3

inductive Speaker where
  | decoder | raster | renderer | playback | commandLine
  deriving DecidableEq, Repr

structure Notice where
  severity : Severity
  speaker : Speaker
  text : String
  deriving DecidableEq, Repr

/-- The notices that are at least as severe as `limit`, in order. -/
def Notice.upTo (limit : Severity) (notices : List Notice) : List Notice :=
  notices.filter fun n => n.severity.rank ≤ limit.rank

end Bitplane

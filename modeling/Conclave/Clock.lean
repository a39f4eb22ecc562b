import Conclave.Duration

/-!
A clock that moves only when told to, in whole milliseconds of an unsigned word.
-/

namespace Conclave

structure ManualClock where
  millis : Nat
deriving DecidableEq, Inhabited

namespace ManualClock

def start (reading : Duration) : ManualClock := ⟨reading.clockMillis⟩

def now (c : ManualClock) : Duration := .ofMillis c.millis

def advance (c : ManualClock) (span : Duration) : ManualClock :=
  ⟨Word.wrap (c.millis + span.clockMillis)⟩

end ManualClock

end Conclave

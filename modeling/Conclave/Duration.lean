import Conclave.Fault
import Conclave.Word

/-!
Spans of time in nanoseconds. A clock reading is the span since the epoch. The seconds of a span fit
an unsigned 64-bit word.
-/

namespace Conclave

structure Duration where
  nanos : Nat
deriving DecidableEq, Inhabited, Repr

namespace Duration

instance : LT Duration := ⟨fun a b => a.nanos < b.nanos⟩
instance : LE Duration := ⟨fun a b => a.nanos ≤ b.nanos⟩
instance (a b : Duration) : Decidable (a < b) := inferInstanceAs (Decidable (a.nanos < b.nanos))
instance (a b : Duration) : Decidable (a ≤ b) := inferInstanceAs (Decidable (a.nanos ≤ b.nanos))

theorem lt_def {a b : Duration} : a < b ↔ a.nanos < b.nanos := Iff.rfl
theorem le_def {a b : Duration} : a ≤ b ↔ a.nanos ≤ b.nanos := Iff.rfl

def zero : Duration := ⟨0⟩

def largest : Duration := ⟨Word.maxUnsigned * 1000000000 + 999999999⟩

def ofMillis (n : Nat) : Duration := ⟨n * 1000000⟩

def ofParts (seconds nanos : Nat) : Duration := ⟨seconds * 1000000000 + nanos⟩

/-- Whole milliseconds, rounded down. -/
def millis (d : Duration) : Nat := d.nanos / 1000000

/-- Whole milliseconds in an unsigned word. -/
def clockMillis (d : Duration) : Nat := Word.wrap d.millis

def seconds (d : Duration) : Nat := d.nanos / 1000000000

def subsecond (d : Duration) : Nat := d.nanos % 1000000000

def add (a b : Duration) : Except Fault Duration :=
  if a.nanos + b.nanos ≤ largest.nanos then .ok ⟨a.nanos + b.nanos⟩ else .error .durationOverflow

/-- The sum, cut at the largest span. -/
def saturatingAdd (a b : Duration) : Duration := ⟨min (a.nanos + b.nanos) largest.nanos⟩

/-- The time from `b` to `a`, zero when `b` is later. -/
def since (a b : Duration) : Duration := ⟨a.nanos - b.nanos⟩

def min (a b : Duration) : Duration := if a ≤ b then a else b

/-- The digits of `n`, which is less than `unit`, from the place below `unit` on, without trailing
zeros. -/
def fraction : (places unit n : Nat) → String
  | 0, _, _ => ""
  | places + 1, unit, n =>
    if n = 0 then ""
    else toString (n / (unit / 10)) ++ fraction places (unit / 10) (n % (unit / 10))

/-- The span in multiples of `unit`. -/
def renderIn (d : Duration) (places unit : Nat) (name : String) : String :=
  toString (d.nanos / unit) ++
    (if d.nanos % unit = 0 then "" else "." ++ fraction places unit (d.nanos % unit)) ++ name

/-- The span in the largest unit that fits in it once. -/
def render (d : Duration) : String :=
  if d.nanos ≥ 1000000000 then d.renderIn 9 1000000000 "s"
  else if d.nanos ≥ 1000000 then d.renderIn 6 1000000 "ms"
  else if d.nanos ≥ 1000 then d.renderIn 3 1000 "µs"
  else d.renderIn 0 1 "ns"

end Duration

end Conclave

/-!
Faults end a run: an operation was asked for something its number ranges or its validator set cannot
express. They are distinct from the errors that a running validator handles.
-/

namespace Conclave

inductive Fault where
  | counterOverflow
  | durationOverflow
  | emptyValidatorSet
  | indexOutOfRange (size index : Nat)
  | notAValidator (index count : Nat)
deriving DecidableEq, Repr

def Fault.message : Fault → String
  | .counterOverflow => "attempt to add with overflow"
  | .durationOverflow => "overflow when adding durations"
  | .emptyValidatorSet => "attempt to calculate the remainder with a divisor of zero"
  | .indexOutOfRange size index =>
    s!"index out of bounds: the len is {size} but the index is {index}"
  | .notAValidator index count => s!"my_index {index} out of range for {count} validators"

end Conclave

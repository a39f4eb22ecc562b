import Conclave.Fault
import Conclave.Word

/-!
Vote counts among `n` validators, of whom `(n - 1) / 3` may be faulty, and the rotation of the
primary.
-/

namespace Conclave

/-- The votes that settle a question. -/
def quorum (n : Nat) : Nat := if n = 0 then 0 else n - (n - 1) / 3

/-- The votes that include at least one validator that is not faulty. -/
def majority (n : Nat) : Nat := n - quorum n + 1

/-- The validator that builds the block at `height` in `round`; its sum of residues is a word. -/
def primaryIndex (height round n : Nat) : Except Fault Nat :=
  if n = 0 then .error .emptyValidatorSet
  else if height % n + round % n ≤ Word.maxUnsigned then .ok ((height % n + round % n) % n)
  else .error .counterOverflow

end Conclave

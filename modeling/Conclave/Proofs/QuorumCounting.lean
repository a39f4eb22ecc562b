import Conclave.Manager.Recompute
import Conclave.Proofs.QuorumIntersection
import Mathlib.Data.Fintype.Card
import Mathlib.Data.Finset.Card
import Mathlib.Data.Fintype.EquivFin

/-!
# Counts as sets of validators

The counts of the status manager run over the list of all validators. Here they become cardinalities
of sets.
-/

namespace Conclave

variable {n : ℕ}

lemma countP_finRange (p : Fin n → Bool) :
    (List.finRange n).countP p = (Finset.univ.filter fun i => p i = true).card := by
  rw [List.countP_eq_length_filter, Fin.univ_def, Finset.card_def, Finset.filter_val,
    Multiset.filter_coe, Multiset.coe_card]
  congr 1
  exact List.filter_congr (fun i _ => by simp)

namespace Manager

variable (m : Manager n)

theorem tally_eq_card (p : NodeStatus → Bool) :
    m.tally p = (Finset.univ.filter fun i => p (m.statuses.get i) = true).card :=
  countP_finRange _

theorem signed_eq_card :
    m.signed = (Finset.univ.filter fun i => (m.signatures.get i).isSome = true).card :=
  countP_finRange _

/-- The validators recorded to have or to be prepared on the block `rid` at `height`. -/
def holdersOf (height : ℕ) (rid : Rid) : Finset (Fin n) :=
  Finset.univ.filter fun i =>
    (m.statuses.get i).height = height ∧ (m.statuses.get i).rid = some rid ∧
      ((m.statuses.get i).phase = .haveBlock ∨ (m.statuses.get i).phase = .prepared)

variable {m} in
lemma holders_eq_card {rid : Rid} (h : m.own.rid = some rid) :
    m.holders = (m.holdersOf m.own.height rid).card := by
  unfold holders holdersOf
  rw [tally_eq_card]
  congr 1
  apply Finset.filter_congr
  intro i _
  simp only [NodeStatus.holds, h, Bool.or_eq_true, decide_eq_true_eq]
  tauto

end Manager

end Conclave

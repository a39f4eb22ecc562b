import Conclave.Proofs.QuorumCounting
import Mathlib.Data.List.Sort
import Mathlib.Tactic.Lemma

/-!
# What a status manager asks of its records

Whether it is behind, which block it waits for and who can give it signatures, each as a statement
about the recorded statuses.
-/

namespace Conclave.Manager

variable {n : ℕ} {m : Manager n}

theorem behind_iff :
    m.behind = true ↔
      (Finset.univ.filter fun i => (m.statuses.get i).height = m.own.height).card < quorum n ∧
        ∃ i, m.own.height < (m.statuses.get i).height := by
  unfold behind
  rw [tally_eq_card]
  simp

lemma primary_val (m : Manager n) : m.primary.val = (m.own.height + m.own.round) % n :=
  m.primaryFor_val m.own.height m.own.round

theorem waitingIntent_eq {p : Fin n} (hp : p.val = (m.own.height + m.own.round) % n) :
    (p = m.me → m.waitingIntent = .buildBlock) ∧
      (p ≠ m.me →
        (∀ rid, (m.statuses.get p).height = m.own.height → (m.statuses.get p).rid = some rid →
          m.waitingIntent = .fetchUnfinishedBlock rid) ∧
        ((m.statuses.get p).height ≠ m.own.height ∨ (m.statuses.get p).rid = none →
          m.waitingIntent = .doNothing)) := by
  have hprimary : m.primary = p := Fin.ext ((primary_val m).trans hp.symm)
  unfold waitingIntent isPrimary
  rw [hprimary]
  refine ⟨fun h => by simp [h], fun h => ⟨fun rid hh hr => by simp [h, hh, hr], fun hd => ?_⟩⟩
  rw [if_neg (by simp [h])]
  cases hr : (m.statuses.get p).rid with
  | none => rfl
  | some rid =>
    have hh : (m.statuses.get p).height ≠ m.own.height := by simpa [hr] using hd
    simp [hh]

lemma pairwise_signatureSources (m : Manager n) (rid : Rid) :
    (m.signatureSources rid).Pairwise (· < ·) := by
  unfold signatureSources
  rw [List.pairwise_map]
  exact (List.sortedLT_finRange n).pairwise.filter _

lemma mem_signatureSources {rid : Rid} {k : ℕ} :
    k ∈ m.signatureSources rid ↔
      ∃ i : Fin n, i.val = k ∧ m.signatures.get i = none ∧
        (m.own.height < (m.statuses.get i).height ∨
          ((m.statuses.get i).height = m.own.height ∧ (m.statuses.get i).phase = .prepared ∧
            (m.statuses.get i).rid = some rid)) := by
  unfold signatureSources
  simp only [List.mem_map, List.mem_filter, List.mem_finRange, true_and, NodeStatus.holds,
    Bool.and_eq_true, Bool.or_eq_true, decide_eq_true_eq, Option.isNone_iff_eq_none, gt_iff_lt]
  constructor
  · rintro ⟨i, ⟨hs, hsource⟩, rfl⟩
    exact ⟨i, rfl, hs, hsource⟩
  · rintro ⟨i, rfl, hs, hsource⟩
    exact ⟨i, ⟨hs, hsource⟩, rfl⟩

lemma preparedIntent_eq (m : Manager n) (rid : Rid) :
    m.preparedIntent rid =
      if m.signatureSources rid = [] then .doNothing
      else .fetchCommitSignatures rid (m.signatureSources rid) := by
  unfold preparedIntent
  cases m.signatureSources rid <;> simp

/-- A block is asked for when the record of the primary, a peer, names it at the own height. -/
lemma waitingIntent_eq_fetch {rid : Rid} (h : m.waitingIntent = .fetchUnfinishedBlock rid) :
    ∃ p, p ≠ m.me ∧ (m.statuses.get p).height = m.own.height ∧
      (m.statuses.get p).rid = some rid := by
  unfold waitingIntent isPrimary at h
  split at h
  · cases h
  · rename_i hp
    split at h
    · rename_i r hr
      split at h
      · rename_i hh
        cases h
        exact ⟨m.primary, by simpa using hp, hh, hr⟩
      · cases h
    · cases h

lemma preparedIntent_eq_fetch {rid r : Rid} {nodes : List ℕ}
    (h : m.preparedIntent rid = .fetchCommitSignatures r nodes) :
    r = rid ∧ nodes = m.signatureSources rid := by
  rw [preparedIntent_eq] at h
  split at h
  · cases h
  · cases h
    exact ⟨rfl, rfl⟩

end Conclave.Manager

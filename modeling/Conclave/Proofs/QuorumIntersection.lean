import Conclave.Quorum
import Mathlib.Data.Fintype.Card
import Mathlib.Data.Nat.PSub
import Mathlib.Order.Bounds.Basic

/-!
# What quorums and majorities have in common

With up to `f = (n - 1) / 3` faulty ones among `n` validators, a quorum is all but `f` of them and a
majority one more than `f`. Two quorums share a majority, and a majority is the least that leaves no
quorum to the others. The two counts come out of checked subtractions as well, so none of them
hides a negative difference.
-/

namespace Conclave

variable {n : ℕ}

lemma quorum_of_pos (hn : 0 < n) : quorum n = n - (n - 1) / 3 := if_neg hn.ne'

lemma quorum_le (n : ℕ) : quorum n ≤ n := by
  unfold quorum
  split
  · exact Nat.zero_le n
  · exact Nat.sub_le n _

lemma majority_of_pos (hn : 0 < n) : majority n = (n - 1) / 3 + 1 := by
  rw [majority, quorum_of_pos hn]
  omega

/-- As `quorum`, by subtractions that have no result below zero. -/
def quorum? (n : ℕ) : Option ℕ :=
  if n = 0 then some 0 else (n.psub 1).bind fun others => n.psub (others / 3)

/-- As `majority`, by subtractions that have no result below zero. -/
def majority? (n : ℕ) : Option ℕ :=
  (quorum? n).bind fun votes => (n.psub votes).map (· + 1)

lemma quorum?_eq (n : ℕ) : quorum? n = some (quorum n) := by
  unfold quorum? quorum
  split
  · rfl
  · have hone : 1 ≤ n := by omega
    have hfaulty : (n - 1) / 3 ≤ n := by omega
    rw [Nat.psub_eq_sub hone, Option.bind_some, Nat.psub_eq_sub hfaulty]

lemma majority?_eq (n : ℕ) : majority? n = some (majority n) := by
  rw [majority?, quorum?_eq, Option.bind_some, Nat.psub_eq_sub (quorum_le n)]
  rfl

section Sets

variable {A B : Finset (Fin n)}

lemma card_add_card_le (A B : Finset (Fin n)) : A.card + B.card ≤ n + (A ∩ B).card := by
  have hunion : (A ∪ B).card ≤ n := by simpa using Finset.card_le_univ (A ∪ B)
  rw [← Finset.card_union_add_card_inter]
  exact Nat.add_le_add_right hunion _

/-- Two quorums share a majority. -/
lemma majority_le_card_inter (hn : 0 < n) (hA : quorum n ≤ A.card) (hB : quorum n ≤ B.card) :
    majority n ≤ (A ∩ B).card := by
  have hcards := card_add_card_le A B
  rw [quorum_of_pos hn] at hA hB
  rw [majority_of_pos hn]
  omega

/-- Any two quorums share a validator. -/
theorem quorums_share (hn : 0 < n) (hA : quorum n ≤ A.card) (hB : quorum n ≤ B.card) :
    ∃ i, i ∈ A ∧ i ∈ B := by
  have hshared : 0 < (A ∩ B).card := (Nat.succ_pos _).trans_le (majority_le_card_inter hn hA hB)
  obtain ⟨i, hi⟩ := Finset.card_pos.mp hshared
  exact ⟨i, Finset.mem_inter.mp hi⟩

/-- A set has a majority exactly when the others are no quorum. -/
lemma majority_le_card_iff (hn : 0 < n) : majority n ≤ A.card ↔ Aᶜ.card < quorum n := by
  have hcards := Finset.card_add_card_compl A
  rw [Fintype.card_fin] at hcards
  rw [majority_of_pos hn, quorum_of_pos hn]
  omega

end Sets

/-- No fewer than a majority leave no quorum to the others, whichever they are. -/
lemma isLeast_majority (hn : 0 < n) :
    IsLeast {k | ∀ A : Finset (Fin n), k ≤ A.card → Aᶜ.card < quorum n} (majority n) := by
  refine ⟨fun A hA => (majority_le_card_iff hn).mp hA, fun k hk => ?_⟩
  by_cases hkn : k ≤ n
  · have huniv : k ≤ (Finset.univ : Finset (Fin n)).card := by
      rwa [Finset.card_univ, Fintype.card_fin]
    obtain ⟨A, -, hA⟩ := Finset.exists_subset_card_eq huniv
    exact hA ▸ (majority_le_card_iff hn).mpr (hk A hA.ge)
  · rw [majority_of_pos hn]
    omega

/-- Neither count subtracts more than there is, nor does it if there are no validators. If there
are, the quorums are the sets that leave out at most `f = (n - 1) / 3`. Any two of them share a
majority, which is `f + 1`. A set has a majority exactly when the others are fewer than a quorum,
and no lower number ensures that. -/
theorem quorums_intersect (n : ℕ) :
    quorum? n = some (quorum n) ∧ majority? n = some (majority n) ∧
    (0 < n →
      majority n = (n - 1) / 3 + 1 ∧
      (∀ A : Finset (Fin n), quorum n ≤ A.card ↔ n - (n - 1) / 3 ≤ A.card) ∧
      (∀ A B : Finset (Fin n), quorum n ≤ A.card → quorum n ≤ B.card →
        majority n ≤ (A ∩ B).card) ∧
      (∀ A : Finset (Fin n), majority n ≤ A.card ↔ Aᶜ.card < quorum n) ∧
      IsLeast {k | ∀ A : Finset (Fin n), k ≤ A.card → Aᶜ.card < quorum n} (majority n)) := by
  refine ⟨quorum?_eq n, majority?_eq n, fun hn => ⟨majority_of_pos hn, fun A => ?_,
    fun A B hA hB => majority_le_card_inter hn hA hB, fun A => majority_le_card_iff hn,
    isLeast_majority hn⟩⟩
  rw [quorum_of_pos hn]

/-- Four of five validators are a quorum. Two quorums share three of them, and two are a majority
already. -/
theorem quorums_intersect_of_five :
    let A : Finset (Fin 5) := {0, 1, 2, 3}
    let B : Finset (Fin 5) := {1, 2, 3, 4}
    quorum 5 ≤ A.card ∧ quorum 5 ≤ B.card ∧ majority 5 = 2 ∧ majority 5 ≤ (A ∩ B).card ∧
      ({0, 4}ᶜ : Finset (Fin 5)).card < quorum 5 := by
  intro A B
  have hA : quorum 5 ≤ A.card := by decide
  have hB : quorum 5 ≤ B.card := by decide
  obtain ⟨-, -, hpos⟩ := quorums_intersect 5
  obtain ⟨hmajority, -, hshare, hrest, -⟩ := hpos (by decide)
  exact ⟨hA, hB, hmajority, hshare A B hA hB, (hrest {0, 4}).mp (by decide)⟩

end Conclave

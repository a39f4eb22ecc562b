import Conclave.Manager.Basic
import Mathlib.Algebra.Group.Fin.Basic
import Mathlib.Algebra.Group.Units.Equiv
import Mathlib.Algebra.GroupWithZero.Nat
import Mathlib.Data.Finset.Card
import Mathlib.Order.Interval.Finset.Fin

/-!
# The rotation of the primary

Heights and rounds may be so large that their sum is no word, so the primary is found from the sum
of their residues. As long as two residues fit a word, this is the residue of the whole sum. The
validators then take turns: in `n` rounds of a height, or in a round of `n` heights, each of them is
primary once, and some of any `f + 1` successive primaries is not among `f` given ones.
-/

namespace Conclave

variable {n : ℕ}

/-- Two residues fit a word, and the residue of their sum is the one of the whole sum. -/
lemma primaryIndex_eq (hn : 0 < n) (hword : n ≤ 2 ^ 63) (height round : ℕ) :
    primaryIndex height round n = .ok ((height + round) % n) := by
  have hheight : height % n < n := Nat.mod_lt _ hn
  have hround : round % n < n := Nat.mod_lt _ hn
  have hsum : height % n + round % n ≤ Word.maxUnsigned := by
    unfold Word.maxUnsigned
    omega
  rw [primaryIndex, if_neg hn.ne', if_pos hsum, ← Nat.add_mod]

/-- With one validator more there are residues whose sum is no word. -/
example : primaryIndex (2 ^ 63) (2 ^ 63) (2 ^ 63 + 1) = .error .counterOverflow := by decide

namespace Manager

lemma isPrimary_iff (m : Manager n) :
    m.isPrimary = true ↔ (m.own.height + m.own.round) % n = m.me := by
  rw [← m.primaryFor_val, isPrimary, decide_eq_true_eq, Fin.ext_iff]
  rfl

end Manager

/-! ### Taking turns -/

section Turns

variable [NeZero n]

/-- Whose turn it is so many turns after the one of number `start`: one validator after the other,
and the first again after the last. -/
def turns (start : ℕ) : Equiv.Perm (Fin n) := Equiv.addLeft (Fin.ofNat n start)

lemma turns_val (start : ℕ) (k : Fin n) : (turns start k : ℕ) = (start + k) % n := by
  simp [turns, Fin.val_add]

/-- One more turn than `F` has validators is enough to come to another one. -/
lemma exists_turns_notMem (start : ℕ) {F : Finset (Fin n)} (last : Fin n) (hF : F.card ≤ last) :
    ∃ k ≤ last, turns start k ∉ F := by
  have hmore : F.card < ((Finset.Iic last).map (turns start).toEmbedding).card := by
    rw [Finset.card_map, Fin.card_Iic]
    exact Nat.lt_succ_of_le hF
  obtain ⟨i, hi, hout⟩ := Finset.exists_mem_notMem_of_card_lt_card hmore
  obtain ⟨k, hk, rfl⟩ := Finset.mem_map.mp hi
  exact ⟨k, Finset.mem_Iic.mp hk, hout⟩

end Turns

/-- For up to `2 ^ 63` validators the primary of a height and a round is the residue of their sum,
without an overflow on the way, and it is what the status manager goes by. In `n` successive rounds
of a height, as in a round of `n` successive heights, each validator is primary exactly once. Of the
primaries of `f + 1` successive rounds, `f = (n - 1) / 3`, one is outside of any set of `f`
validators. -/
theorem primaries_rotate (hn : 0 < n) (hword : n ≤ 2 ^ 63) :
    (∀ height round, primaryIndex height round n = .ok ((height + round) % n)) ∧
    (∀ (m : Manager n) (height round : ℕ),
      primaryIndex height round n = .ok (m.primaryFor height round : ℕ)) ∧
    (∀ m : Manager n, m.isPrimary = true ↔
      primaryIndex m.own.height m.own.round n = .ok (m.me : ℕ)) ∧
    (∀ height round, ∃ primaries : Equiv.Perm (Fin n), ∀ k : Fin n,
      primaryIndex height (round + k) n = .ok (primaries k : ℕ)) ∧
    (∀ height round, ∃ primaries : Equiv.Perm (Fin n), ∀ k : Fin n,
      primaryIndex (height + k) round n = .ok (primaries k : ℕ)) ∧
    ∀ F : Finset (Fin n), F.card ≤ (n - 1) / 3 → ∀ height round, ∃ k ≤ (n - 1) / 3, ∃ i ∉ F,
      primaryIndex height (round + k) n = .ok (i : ℕ) := by
  have : NeZero n := ⟨hn.ne'⟩
  have hsum := primaryIndex_eq hn hword
  have hrounds (height round : ℕ) (k : Fin n) :
      primaryIndex height (round + k) n = .ok (turns (height + round) k : ℕ) := by
    rw [hsum, turns_val, Nat.add_assoc]
  have hheights (height round : ℕ) (k : Fin n) :
      primaryIndex (height + k) round n = .ok (turns (height + round) k : ℕ) := by
    rw [hsum, turns_val, Nat.add_right_comm]
  refine ⟨hsum, fun m height round => ?_, fun m => ?_,
    fun height round => ⟨turns (height + round), hrounds height round⟩,
    fun height round => ⟨turns (height + round), hheights height round⟩,
    fun F hF height round => ?_⟩
  · rw [hsum, m.primaryFor_val]
  · rw [hsum, m.isPrimary_iff, Except.ok.injEq]
  · let last : Fin n := ⟨(n - 1) / 3, by omega⟩
    obtain ⟨k, hk, hout⟩ := exists_turns_notMem (height + round) last hF
    exact ⟨k, hk, turns (height + round) k, hout, hrounds height round k⟩

/-- The last height that is a word, and rounds that lead past the words: two of seven validators are
primary in the fifth round and in the sixth, and another one in the seventh. -/
theorem primaries_rotate_past_words :
    primaryIndex Word.maxUnsigned 5 7 = .ok 6 ∧ primaryIndex Word.maxUnsigned 6 7 = .ok 0 ∧
      ∃ k ≤ 2, ∃ i ∉ ({6, 0} : Finset (Fin 7)),
        primaryIndex Word.maxUnsigned (5 + k) 7 = .ok (i : ℕ) := by
  have hrotate := primaries_rotate (n := 7) (by decide) (by decide)
  obtain ⟨hsum, -, -, -, -, houtside⟩ := hrotate
  exact ⟨hsum Word.maxUnsigned 5, hsum Word.maxUnsigned 6,
    houtside {6, 0} (by decide) Word.maxUnsigned 5⟩

end Conclave

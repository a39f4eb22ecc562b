import Conclave.BuildPolicy
import Mathlib.Algebra.Group.Nat.Defs
import Mathlib.Tactic.Lemma

/-!
# The pause after failed builds

A build policy counts the builds that have failed since the last block was committed, and waits for
a pause that doubles with each of them. The doubling stops where a word ends, and the pause at its
bound, so that no failure takes it out of the range of durations.
-/

namespace Conclave

/-! ### The pause -/

namespace BuildingConfig

variable {c : BuildingConfig} {j k : ℕ}

/-- The milliseconds that the failures so far stand for. -/
def doubled (k : ℕ) : ℕ := Word.saturate (2 ^ k)

/-- The pause after `k` failures. -/
def pause (c : BuildingConfig) (k : ℕ) : Duration :=
  ⟨min ((Duration.ofMillis (doubled k)).nanos + c.minBackoff.nanos) c.maxBackoff.nanos⟩

lemma pause_mono (h : j ≤ k) : c.pause j ≤ c.pause k := by
  have hpow : 2 ^ j ≤ 2 ^ k := Nat.pow_le_pow_right (by omega) h
  simp only [Duration.le_def, pause, Duration.ofMillis, doubled, Word.saturate]
  omega

lemma le_pause (h : c.minBackoff ≤ c.maxBackoff) (k : ℕ) : c.minBackoff ≤ c.pause k := by
  simp only [Duration.le_def, pause] at h ⊢
  omega

lemma pause_le (c : BuildingConfig) (k : ℕ) : c.pause k ≤ c.maxBackoff := by
  simp only [Duration.le_def, pause]
  omega

/-- The milliseconds are a duration. -/
lemma doubled_le (k : ℕ) : Duration.ofMillis (doubled k) ≤ Duration.largest := by
  have hle : doubled k ≤ Word.maxUnsigned := by
    unfold doubled Word.saturate
    exact Nat.min_le_right _ _
  have hnanos : doubled k * 1000000 ≤ Word.maxUnsigned * 1000000000 + 999999999 := by omega
  exact hnanos

end BuildingConfig

lemma Config.backoffs_ordered {c : Config} (h : c.validate = .ok ()) :
    c.building.minBackoff ≤ c.building.maxBackoff := by
  unfold Config.validate at h
  repeat' split at h
  all_goals try cases h
  rename_i hle
  exact Nat.le_of_not_lt hle

/-! ### What a policy remembers -/

namespace BuildPolicy

variable {p p' p'' : BuildPolicy} {c : BuildingConfig} {failed : List Duration}

lemma doubled_eq (k : ℕ) :
    (if k < 64 then 1 <<< k else Word.maxUnsigned) = BuildingConfig.doubled k := by
  unfold BuildingConfig.doubled Word.saturate
  split
  · rename_i hk
    have hpow : 2 ^ k ≤ 2 ^ 63 := Nat.pow_le_pow_right (by omega) (by omega)
    have hle : 2 ^ k ≤ Word.maxUnsigned := by
      simp only [Word.maxUnsigned]
      omega
    rw [Nat.shiftLeft_eq, Nat.one_mul, Nat.min_eq_left hle]
  · rename_i hk
    have hpow : 2 ^ 64 ≤ 2 ^ k := Nat.pow_le_pow_right (by omega) (by omega)
    have hle : Word.maxUnsigned ≤ 2 ^ k := by
      simp only [Word.maxUnsigned]
      omega
    exact (Nat.min_eq_right hle).symm

lemma eq_of_nanos {a b : Duration} (h : a.nanos = b.nanos) : a = b := by
  cases a
  cases b
  exact congrArg Duration.mk h

/-- The sum is cut where no duration goes on, which does not show in a pause that is one. -/
lemma backoff_eq (h : p.config.maxBackoff ≤ Duration.largest) :
    p.backoff = p.config.pause p.failures := by
  have hmin : ∀ a b : Duration, (a.min b).nanos = min a.nanos b.nanos := by
    intro a b
    simp only [Duration.min, Duration.le_def]
    split
    · omega
    · omega
  have hnanos : p.backoff.nanos = (p.config.pause p.failures).nanos := by
    simp only [backoff, doubled_eq, hmin, Duration.saturatingAdd, BuildingConfig.pause,
      Duration.le_def] at h ⊢
    omega
  exact eq_of_nanos hnanos

/-- `p'` has the failures of `p`. -/
structure SameRecord (p p' : BuildPolicy) : Prop where
  config : p'.config = p.config
  failures : p'.failures = p.failures
  failedAt : p'.failedAt = p.failedAt

lemma SameRecord.refl (p : BuildPolicy) : SameRecord p p := ⟨rfl, rfl, rfl⟩

lemma SameRecord.trans (h : SameRecord p p') (h' : SameRecord p' p'') : SameRecord p p'' :=
  ⟨h'.config.trans h.config, h'.failures.trans h.failures, h'.failedAt.trans h.failedAt⟩

lemma SameRecord.mustWait (h : SameRecord p p') (now : Duration) :
    p'.mustWait now = p.mustWait now := by
  have hbackoff : p'.backoff = p.backoff := by
    simp only [backoff, h.config, h.failures]
  unfold BuildPolicy.mustWait
  rw [h.failedAt, hbackoff]

lemma sameRecord_setForceStop (p : BuildPolicy) (forceStop : Bool) :
    SameRecord p (p.setForceStop forceStop) := ⟨rfl, rfl, rfl⟩

lemma sameRecord_shouldBuild (p : BuildPolicy) (queued : ℕ) (now : Duration) :
    SameRecord p (p.shouldBuild queued now).2 := by
  unfold shouldBuild timeUp
  repeat' split
  all_goals exact ⟨rfl, rfl, rfl⟩

/-- What there is to remember. -/
inductive Tidings where
  | buildFailed (now : Duration)
  | blockCommitted

/-- The times of the builds that have failed since the last block, after the tidings. -/
def retell (failed : List Duration) : Option Tidings → List Duration
  | none => failed
  | some (.buildFailed now) => failed ++ [now]
  | some .blockCommitted => []

/-- The builds that have failed since the last block did so at these times, the oldest first. -/
structure Remembers (p : BuildPolicy) (c : BuildingConfig) (failed : List Duration) : Prop where
  config : p.config = c
  failures : p.failures = failed.length
  failedAt : p.failedAt = failed.getLast?

lemma Remembers.same (h : p.Remembers c failed) (hp : SameRecord p p') :
    p'.Remembers c failed :=
  ⟨hp.config.trans h.config, hp.failures.trans h.failures, hp.failedAt.trans h.failedAt⟩

lemma Remembers.blockFailed (h : p.Remembers c failed) (now : Duration) :
    (p.blockFailed now).Remembers c (failed ++ [now]) := by
  refine ⟨h.config, ?_, ?_⟩
  · simp [BuildPolicy.blockFailed, h.failures]
  · simp [BuildPolicy.blockFailed]

lemma Remembers.blockCommitted (h : p.Remembers c failed) (timestamp : Duration) :
    (p.blockCommitted timestamp).Remembers c [] := ⟨h.config, rfl, rfl⟩

/-- Who need not wait has waited for the whole pause. -/
lemma Remembers.pause_over (h : p.Remembers c failed) (hfits : c.maxBackoff ≤ Duration.largest)
    {now t : Duration} (ht : failed.getLast? = some t) (hlater : t ≤ now)
    (hgo : p.mustWait now = false) : t.nanos + (c.pause failed.length).nanos ≤ now.nanos := by
  have hbackoff : p.backoff = c.pause failed.length := by
    rw [backoff_eq (by rwa [h.config]), h.config, h.failures]
  have hover : ¬now.since t < c.pause failed.length := by
    simpa [BuildPolicy.mustWait, h.failedAt, ht, hbackoff] using hgo
  simp only [Duration.lt_def, Duration.le_def, Duration.since] at hover hlater
  omega

end BuildPolicy

end Conclave

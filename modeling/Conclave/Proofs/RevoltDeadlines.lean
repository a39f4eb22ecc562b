import Conclave.Proofs.ManagerMoves
import Conclave.Revolt

/-!
# The deadline of a round

A tracker gives every round its time, anew whenever there is nothing to build, and a revolt is due
when that is over or the primary has been silent for too long. An update of the tracker tells the
manager of a revolt that is due, like any other input. The delay that a round gets is never opened.
-/

namespace Conclave

/-- A round of a height, in which one validator is the primary. -/
def NodeStatus.slot (s : NodeStatus) : ℕ × ℕ := (s.height, s.round)

/-- When a round that begins at `now` has had its time. -/
def RevoltConfig.expiry (c : RevoltConfig) (now : Duration) (round : ℕ) : Duration :=
  ⟨now.nanos + c.timeout.nanos + (c.delay round).nanos⟩

/-- Whatever the floats of a delay come to, they are turned into a word. -/
lemma RevoltConfig.delay_le (c : RevoltConfig) (round : ℕ) :
    (c.delay round).nanos ≤ max c.delayMax.nanos (Duration.ofMillis Word.maxUnsigned).nanos := by
  unfold RevoltConfig.delay
  simp only
  split
  · exact Nat.zero_le _
  split
  · exact Nat.le_max_left _ _
  · refine Nat.le_trans ?_ (Nat.le_max_right _ _)
    exact Nat.mul_le_mul_right _ (Nat.le_sub_one_of_lt (UInt64.toNat_lt _))

namespace RevoltTracker

variable {t t' : RevoltTracker} {s : NodeStatus} {round : ℕ} {now : Duration} {shouldBuild : Bool}
  {fault : Fault}

lemma resetDeadline_eq (t : RevoltTracker) (round : ℕ) (now : Duration) :
    t.resetDeadline round now =
      if t.config.expiry now round ≤ Duration.largest then
        .ok { t with deadline := t.config.expiry now round }
      else .error .durationOverflow := by
  simp only [resetDeadline, Duration.add, RevoltConfig.expiry, Duration.le_def]
  by_cases htotal : now.nanos + t.config.timeout.nanos + (t.config.delay round).nanos ≤
      Duration.largest.nanos
  · have hfirst : now.nanos + t.config.timeout.nanos ≤ Duration.largest.nanos := by omega
    rw [if_pos htotal, if_pos hfirst]
    simp only [bind, Except.bind, if_pos htotal]
    rfl
  · rw [if_neg htotal]
    by_cases hfirst : now.nanos + t.config.timeout.nanos ≤ Duration.largest.nanos
    · rw [if_pos hfirst]
      simp only [bind, Except.bind, if_neg htotal]
    · rw [if_neg hfirst]
      rfl

/-- The deadline moves unless the height and the round are the last ones seen and there is something
to build. -/
lemma refresh_eq (t : RevoltTracker) (s : NodeStatus) (shouldBuild : Bool) (now : Duration) :
    t.refresh s shouldBuild now =
      if s.slot ≠ (t.height, t.round) ∨ shouldBuild = false then
        { t with height := s.height, round := s.round }.resetDeadline s.round now
      else .ok t := by
  have hreset : ∀ u : RevoltTracker, (u.resetDeadline s.round now >>=
      fun v => v.resetDeadline s.round now) = u.resetDeadline s.round now := by
    intro u
    by_cases hfits : u.config.expiry now s.round ≤ Duration.largest
    · simp [resetDeadline_eq, hfits, bind, Except.bind]
    · simp [resetDeadline_eq, hfits, bind, Except.bind]
  unfold refresh NodeStatus.slot
  by_cases hseen : s.height = t.height ∧ s.round = t.round
  · obtain ⟨hheight, hround⟩ := hseen
    cases shouldBuild with
    | true => simp [hheight, hround, pure, Except.pure, bind, Except.bind]
    | false => simp [hheight, hround]
  · have hne : s.height ≠ t.height ∨ s.round ≠ t.round := by omega
    cases shouldBuild with
    | true => simp [hne, hseen]
    | false => simpa [hne, hseen] using hreset _

section Update

variable {n : ℕ} {m m' : Manager n} {revolts : Bool}

/-- A revolt that is due is told to the manager. -/
lemma of_update_eq_ok (h : t.update m shouldBuild now = .ok (t', m', revolts)) :
    t.refresh m.own shouldBuild now = .ok t' ∧
      revolts = t'.due m.own m.isPrimary (m.heardAt.get m.primary) now ∧
      m' = if revolts then (m.respond .revolt).1 else m := by
  obtain ⟨t₁, hrefresh, hupdate⟩ := Manager.exists_of_bind_eq_ok h
  split at hupdate
  · rename_i hdue
    obtain ⟨r, hr, hlast⟩ := Manager.exists_of_bind_eq_ok hupdate
    cases hlast
    rw [Manager.respond_of_handle hr]
    exact ⟨hrefresh, hdue.symm, rfl⟩
  · rename_i hdue
    cases hupdate
    exact ⟨hrefresh, (eq_false_of_ne_true hdue).symm, rfl⟩

/-- An update ends in a fault for want of a deadline, or of room for the own serial. -/
lemma of_update_eq_error (h : t.update m shouldBuild now = .error fault) :
    t.refresh m.own shouldBuild now = .error fault ∨ fault = .counterOverflow := by
  unfold update at h
  cases hrefresh : t.refresh m.own shouldBuild now with
  | error fault' =>
    rw [hrefresh] at h
    exact .inl (congrArg _ (Except.error.inj h))
  | ok t' =>
    rw [hrefresh] at h
    simp only [bind, Except.bind] at h
    split at h
    · cases hr : m.handle .revolt with
      | error fault' =>
        rw [hr] at h
        cases h
        exact .inr (Manager.eq_counterOverflow_of_handle hr)
      | ok r =>
        rw [hr] at h
        cases h
    · cases h

/-- An update that finds a deadline comes to an end if there is room for the own serial. -/
lemma exists_update (hrefresh : t.refresh m.own shouldBuild now = .ok t')
    (hroom : (m.respond .revolt).1.own.inRange = true) :
    ∃ m' revolts, t.update m shouldBuild now = .ok (t', m', revolts) := by
  unfold update
  rw [hrefresh]
  simp only [bind, Except.bind, Manager.handle_of_inRange hroom]
  split
  · exact ⟨_, _, rfl⟩
  · exact ⟨_, _, rfl⟩

end Update

lemma due_iff {isPrimary : Bool} {lastHeard : Option Duration} :
    t.due s isPrimary lastHeard now = true ↔
      s.revolting = false ∧
        ((∃ limit, t.config.fastTimeout = some limit ∧ isPrimary = false ∧ 0 < s.height ∧
            (lastHeard.getD .zero).nanos + limit.nanos < now.nanos) ∨ t.deadline < now) := by
  have hsilent : t.tooSilent s isPrimary lastHeard now = true ↔
      ∃ limit, t.config.fastTimeout = some limit ∧ isPrimary = false ∧ 0 < s.height ∧
        (lastHeard.getD .zero).nanos + limit.nanos < now.nanos := by
    unfold tooSilent
    cases t.config.fastTimeout with
    | none => simp
    | some limit =>
      have hago : limit < now.since (lastHeard.getD .zero) ↔
          (lastHeard.getD .zero).nanos + limit.nanos < now.nanos := by
        simp only [Duration.lt_def, Duration.since]
        omega
      simp [hago]
  simp only [due, hsilent, decide_eq_true_eq, Bool.not_eq_true]

end RevoltTracker

end Conclave

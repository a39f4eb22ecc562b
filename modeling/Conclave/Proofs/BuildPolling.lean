import Conclave.BuildPolicy
import Mathlib.Data.Nat.Notation
import Mathlib.Tactic.Lemma

/-!
# When a block is due

A build policy answers polls and remembers one time only, the one at which transactions were first
found waiting. What it answers is a matter of the polls since the last block: in the order of time,
the first one to find transactions waiting stands for all of them. Failed builds and the force-stop
flag have no part in it.
-/

namespace Conclave

/-- A question whether a block is due, with the size of the queue. -/
structure Poll where
  queued : ℕ
  now : Duration

/-- Whether a poll starts the delay of transactions: it finds some, and nothing that makes a block
due at once or rules one out. -/
def Poll.startsDelay (c : BuildingConfig) (lastBlock : Duration) (poll : Poll) : Bool :=
  c.minInterval ≤ poll.now.since lastBlock ∧ 0 < poll.queued ∧ poll.queued < c.maxTransactions ∧
    poll.now.since lastBlock ≤ c.maxBlockTime

lemma startsDelay_iff {c : BuildingConfig} {lastBlock : Duration} {poll : Poll} :
    poll.startsDelay c lastBlock = true ↔
      c.minInterval ≤ poll.now.since lastBlock ∧ 0 < poll.queued ∧
        poll.queued < c.maxTransactions ∧ poll.now.since lastBlock ≤ c.maxBlockTime :=
  decide_eq_true_iff

namespace BuildPolicy

variable {p : BuildPolicy} {c : BuildingConfig}

/-! ### One poll -/

lemma shouldBuild_iff (p : BuildPolicy) (queued : ℕ) (now : Duration) :
    (p.shouldBuild queued now).1 = true ↔
      p.config.minInterval ≤ now.since p.lastBlock ∧
        (p.config.maxTransactions ≤ queued ∨ p.config.maxBlockTime < now.since p.lastBlock ∨
          ∃ first, p.firstTransaction = some first ∧
            p.config.maxTransactionDelay < now.since first) := by
  unfold shouldBuild
  split
  · rename_i hsoon
    have hsoon' : ¬p.config.minInterval ≤ now.since p.lastBlock := Nat.not_le.mpr hsoon
    simp [hsoon']
  · rename_i hlate
    have hlate' : p.config.minInterval ≤ now.since p.lastBlock := Nat.not_lt.mp hlate
    split
    · rename_i hfull
      simp [hlate', hfull]
    · rename_i hroom
      unfold timeUp
      split
      · rename_i hlong
        simp [hlate', hlong]
      · rename_i hshort
        cases hfirst : p.firstTransaction with
        | none => simp [hroom, hshort]
        | some first => simp [hlate', hroom, hshort]

lemma policy_shouldBuild (p : BuildPolicy) (poll : Poll) :
    (p.shouldBuild poll.queued poll.now).2 =
      { p with
        firstTransaction := p.firstTransaction.or
          (if poll.startsDelay p.config p.lastBlock then some poll.now else none) } := by
  unfold shouldBuild Poll.startsDelay
  split
  · rename_i hsoon
    have hsoon' : ¬p.config.minInterval ≤ poll.now.since p.lastBlock := Nat.not_le.mpr hsoon
    simp [hsoon']
  · rename_i hlate
    have hlate' : p.config.minInterval ≤ poll.now.since p.lastBlock := Nat.not_lt.mp hlate
    split
    · rename_i hfull
      have hfull' : ¬poll.queued < p.config.maxTransactions := Nat.not_lt.mpr hfull
      simp [hfull']
    · rename_i hroom
      have hroom' : poll.queued < p.config.maxTransactions := Nat.not_le.mp hroom
      unfold timeUp
      split
      · rename_i hlong
        have hlong' : ¬poll.now.since p.lastBlock ≤ p.config.maxBlockTime := Nat.not_le.mpr hlong
        simp [hlong']
      · rename_i hshort
        have hshort' : poll.now.since p.lastBlock ≤ p.config.maxBlockTime := Nat.not_lt.mp hshort
        cases hfirst : p.firstTransaction with
        | none =>
          by_cases hwaiting : 0 < poll.queued
          · simp [hwaiting, hlate', hroom', hshort']
          · simp [hwaiting, ← hfirst]
        | some first =>
          change p = { p with firstTransaction := some first }
          rw [← hfirst]

/-! ### Operations -/

/-- What is done to a policy. -/
inductive Op where
  | poll (poll : Poll)
  | committed (timestamp : Duration)
  | failed (now : Duration)
  | setForceStop (forceStop : Bool)

/-- Whether an operation is a poll or a commit. -/
def Op.matters : Op → Bool
  | .poll _ | .committed _ => true
  | .failed _ | .setForceStop _ => false

def Op.isCommit : Op → Bool
  | .committed _ => true
  | _ => false

def after (p : BuildPolicy) : Op → BuildPolicy
  | .poll poll => (p.shouldBuild poll.queued poll.now).2
  | .committed timestamp => p.blockCommitted timestamp
  | .failed now => p.blockFailed now
  | .setForceStop forceStop => p.setForceStop forceStop

/-- The answer to a poll after all operations. -/
def answer (p : BuildPolicy) (ops : List Op) (poll : Poll) : Bool :=
  ((ops.foldl after p).shouldBuild poll.queued poll.now).1

/-- The last block, or what stands for it at first, and the polls since then, the oldest first. -/
structure Epoch where
  lastBlock : Duration
  polls : List Poll := []

namespace Epoch

def after (e : Epoch) : Op → Epoch
  | .poll poll => { e with polls := e.polls ++ [poll] }
  | .committed timestamp => { lastBlock := timestamp }
  | .failed _ | .setForceStop _ => e

/-- The epoch that `ops` lead to. -/
def of (lastBlock : Duration) (ops : List Op) : Epoch := ops.foldl after { lastBlock }

/-- Time alone makes a block due: the last one is too long ago, or an earlier poll started a delay
that is over. -/
def Overdue (c : BuildingConfig) (e : Epoch) (now : Duration) : Prop :=
  c.maxBlockTime < now.since e.lastBlock ∨
    ∃ poll ∈ e.polls, poll.startsDelay c e.lastBlock = true ∧
      c.maxTransactionDelay < now.since poll.now

/-- The polls of an epoch come in the order of time. -/
def Ordered (e : Epoch) : Prop := e.polls.Pairwise (·.now ≤ ·.now)

end Epoch

/-! ### What a policy remembers -/

/-- A policy remembers the first poll that started a delay. -/
structure Recalls (p : BuildPolicy) (c : BuildingConfig) (e : Epoch) : Prop where
  config : p.config = c
  lastBlock : p.lastBlock = e.lastBlock
  first : p.firstTransaction = (e.polls.find? (·.startsDelay c e.lastBlock)).map (·.now)

variable {e : Epoch}

lemma recalls_after (h : p.Recalls c e) (op : Op) : (p.after op).Recalls c (e.after op) := by
  cases op with
  | poll poll =>
    simp only [after, Epoch.after, policy_shouldBuild]
    refine ⟨h.config, h.lastBlock, ?_⟩
    rw [h.first, h.config, h.lastBlock, List.find?_append, Option.map_or]
    by_cases hstarts : poll.startsDelay c e.lastBlock = true
    · simp [hstarts]
    · simp [hstarts]
  | committed timestamp => exact ⟨h.config, rfl, rfl⟩
  | failed now => exact ⟨h.config, h.lastBlock, h.first⟩
  | setForceStop forceStop => exact ⟨h.config, h.lastBlock, h.first⟩

lemma recalls_foldl (h : p.Recalls c e) (ops : List Op) :
    (ops.foldl after p).Recalls c (ops.foldl Epoch.after e) := by
  induction ops generalizing p e with
  | nil => exact h
  | cons op ops ih => exact ih (recalls_after h op)

/-- In the order of time the first poll to start a delay stands for all of them. -/
lemma Recalls.overdue_iff (h : p.Recalls c e) (ho : e.Ordered) (now : Duration) :
    (∃ first, p.firstTransaction = some first ∧ c.maxTransactionDelay < now.since first) ↔
      ∃ poll ∈ e.polls, poll.startsDelay c e.lastBlock = true ∧
        c.maxTransactionDelay < now.since poll.now := by
  rw [h.first]
  constructor
  · rintro ⟨first, hfirst, hlong⟩
    obtain ⟨poll, hpoll, rfl⟩ := Option.map_eq_some_iff.mp hfirst
    exact ⟨poll, List.mem_of_find?_eq_some hpoll, List.find?_some hpoll, hlong⟩
  · rintro ⟨poll, hmem, hstarts, hlong⟩
    obtain ⟨first, hfirst⟩ := Option.isSome_iff_exists.mp
      (List.find?_isSome.mpr ⟨poll, hmem, hstarts⟩)
    refine ⟨first.now, by rw [hfirst]; rfl, ?_⟩
    have hle : first.now ≤ poll.now := by
      obtain ⟨-, before, later, hsplit, hnone⟩ := List.find?_eq_some_iff_append.mp hfirst
      rw [hsplit] at hmem
      rcases List.mem_append.mp hmem with hbefore | hlater
      · simpa [hstarts] using hnone poll hbefore
      · rcases List.mem_cons.mp hlater with rfl | hlater
        · exact Nat.le_refl _
        · have hpairs := ho
          rw [Epoch.Ordered, hsplit, List.pairwise_append] at hpairs
          exact List.rel_of_pairwise_cons hpairs.2.1 hlater
    simp only [Duration.lt_def, Duration.le_def, Duration.since] at hlong hle ⊢
    omega

/-! ### Answers -/

lemma recalls_of (c : BuildingConfig) (lastBlock : Duration) (ops : List Op) :
    (ops.foldl after { config := c, lastBlock }).Recalls c (Epoch.of lastBlock ops) :=
  recalls_foldl ⟨rfl, rfl, rfl⟩ ops

lemma answer_iff {lastBlock : Duration} {ops : List Op} (ho : (Epoch.of lastBlock ops).Ordered)
    (poll : Poll) :
    answer { config := c, lastBlock } ops poll = true ↔
      c.minInterval ≤ poll.now.since (Epoch.of lastBlock ops).lastBlock ∧
        (c.maxTransactions ≤ poll.queued ∨ (Epoch.of lastBlock ops).Overdue c poll.now) := by
  have h := recalls_of c lastBlock ops
  rw [answer, shouldBuild_iff, h.config, h.lastBlock, h.overdue_iff ho]
  rfl

/-- Answers go by what a policy recalls. -/
lemma Recalls.answer_eq {p' : BuildPolicy} (h : p.Recalls c e) (h' : p'.Recalls c e) (poll : Poll) :
    (p.shouldBuild poll.queued poll.now).1 = (p'.shouldBuild poll.queued poll.now).1 := by
  rw [Bool.eq_iff_iff, shouldBuild_iff, shouldBuild_iff, h.config, h.lastBlock, h.first, h'.config,
    h'.lastBlock, h'.first]

lemma epoch_filter_matters (ops : List Op) :
    (ops.filter Op.matters).foldl Epoch.after e = ops.foldl Epoch.after e := by
  induction ops generalizing e with
  | nil => rfl
  | cons op ops ih =>
    cases op with
    | poll poll => exact ih
    | committed timestamp => exact ih
    | failed now => exact ih
    | setForceStop forceStop => exact ih

/-- Until the next commit the polls add up. -/
lemma epoch_extends {later : List Op} (hlater : ∀ op ∈ later, op.isCommit = false) :
    (later.foldl Epoch.after e).lastBlock = e.lastBlock ∧
      e.polls <+: (later.foldl Epoch.after e).polls := by
  induction later generalizing e with
  | nil => exact ⟨rfl, List.prefix_rfl⟩
  | cons op later ih =>
    obtain ⟨hlast, hpolls⟩ := ih (e := e.after op) fun x hx => hlater x (List.mem_cons_of_mem _ hx)
    rw [List.foldl_cons]
    have hop := hlater op List.mem_cons_self
    cases op with
    | poll poll => exact ⟨hlast, (List.prefix_append _ _).trans hpolls⟩
    | committed timestamp => cases hop
    | failed now => exact ⟨hlast, hpolls⟩
    | setForceStop forceStop => exact ⟨hlast, hpolls⟩

/-- What is overdue stays so. -/
lemma Epoch.Overdue.later {e' : Epoch} {now now' : Duration} (h : e.Overdue c now)
    (hlast : e'.lastBlock = e.lastBlock) (hpolls : e.polls <+: e'.polls) (hnow : now ≤ now') :
    e'.Overdue c now' := by
  have hsince : ∀ {d first : Duration}, d < now.since first → d < now'.since first := by
    intro d first hd
    simp only [Duration.lt_def, Duration.le_def, Duration.since] at hd hnow ⊢
    omega
  rcases h with hlong | ⟨poll, hmem, hstarts, hlong⟩
  · exact .inl (by rw [hlast]; exact hsince hlong)
  · exact .inr ⟨poll, hpolls.subset hmem, by rwa [hlast], hsince hlong⟩

/-- With polls in the order of time: a poll is answered with yes exactly when the least interval
since the last block is over and the queue fills a block, or the longest time is over, or an earlier
poll since then found transactions waiting, the interval over and no reason to build, and the
longest delay has passed from there. Once time alone makes a block due, every later poll says so
until a block is committed, whatever is queued. Failures and the force-stop flag change no
answer. -/
theorem polls_answered (c : BuildingConfig) (lastBlock : Duration) (ops : List Op)
    (ho : (Epoch.of lastBlock ops).Ordered) :
    let p : BuildPolicy := { config := c, lastBlock }
    let e := Epoch.of lastBlock ops
    (∀ poll, p.answer ops poll = true ↔
      c.minInterval ≤ poll.now.since e.lastBlock ∧
        (c.maxTransactions ≤ poll.queued ∨ c.maxBlockTime < poll.now.since e.lastBlock ∨
          ∃ earlier ∈ e.polls, c.minInterval ≤ earlier.now.since e.lastBlock ∧
            0 < earlier.queued ∧ earlier.queued < c.maxTransactions ∧
            earlier.now.since e.lastBlock ≤ c.maxBlockTime ∧
            c.maxTransactionDelay < poll.now.since earlier.now)) ∧
    (∀ poll later poll', (∀ op ∈ later, op.isCommit = false) →
      (Epoch.of lastBlock (ops ++ .poll poll :: later ++ [.poll poll'])).Ordered →
      p.answer ops poll = true → poll.queued < c.maxTransactions ∨ e.Overdue c poll.now →
      p.answer (ops ++ .poll poll :: later) poll' = true) ∧
    ∀ poll, p.answer ops poll = p.answer (ops.filter Op.matters) poll := by
  intro p e
  refine ⟨fun poll => ?closed, fun poll later poll' hlater ho' hyes hcause => ?stays,
    fun poll => ?deaf⟩
  case closed =>
    rw [answer_iff ho, Epoch.Overdue]
    simp only [startsDelay_iff, and_assoc]
    rfl
  case stays =>
    obtain ⟨hinterval, hdue⟩ := (answer_iff ho poll).mp hyes
    have hoverdue : e.Overdue c poll.now := by
      rcases hcause with hroom | hoverdue
      · exact hdue.resolve_left (by omega)
      · exact hoverdue
    have hepoch : Epoch.of lastBlock (ops ++ .poll poll :: later) =
        later.foldl Epoch.after { e with polls := e.polls ++ [poll] } := by
      rw [Epoch.of, List.foldl_append]
      rfl
    obtain ⟨hlast, hpolls⟩ := epoch_extends hlater (e := { e with polls := e.polls ++ [poll] })
    rw [← hepoch] at hlast hpolls
    have hpairs : ((Epoch.of lastBlock (ops ++ .poll poll :: later)).polls ++ [poll']).Pairwise
        (·.now ≤ ·.now) := by
      have hlonger : Epoch.of lastBlock (ops ++ .poll poll :: later ++ [.poll poll']) =
          (Epoch.of lastBlock (ops ++ .poll poll :: later)).after (.poll poll') := by
        rw [Epoch.of, List.foldl_append]
        rfl
      rw [hlonger] at ho'
      exact ho'
    rw [List.pairwise_append] at hpairs
    have hnow : poll.now ≤ poll'.now :=
      hpairs.2.2 poll (hpolls.subset (by simp)) poll' (List.mem_singleton_self _)
    rw [answer_iff hpairs.1]
    refine ⟨?_, .inr (hoverdue.later hlast ((List.prefix_append _ _).trans hpolls) hnow)⟩
    rw [hlast]
    simp only [Duration.le_def, Duration.since] at hinterval hnow ⊢
    exact Nat.le_trans hinterval (Nat.sub_le_sub_right hnow _)
  case deaf =>
    have hsame : Epoch.of lastBlock (ops.filter Op.matters) = e := epoch_filter_matters ops
    have hfiltered := recalls_of c lastBlock (ops.filter Op.matters)
    rw [hsame] at hfiltered
    exact (recalls_of c lastBlock ops).answer_eq hfiltered poll

/-- One transaction is found waiting at 30 ms, and its delay of one second is over for good at
1031 ms, though the queue is empty by then. -/
theorem polls_answered_after_delay :
    let p : BuildPolicy := { config := {}, lastBlock := .zero }
    let ops : List Op := [.poll ⟨1, .ofMillis 30⟩, .failed (.ofMillis 40), .setForceStop true]
    p.answer ops ⟨0, .ofMillis 1031⟩ = true ∧
      p.answer (ops ++ [.poll ⟨0, .ofMillis 1031⟩, .poll ⟨0, .ofMillis 1032⟩])
        ⟨0, .ofMillis 1033⟩ = true ∧
      p.answer [.poll ⟨1, .ofMillis 30⟩] ⟨0, .ofMillis 1031⟩ = true := by
  intro p ops
  have hpairs : (Epoch.of .zero ops).Ordered := List.pairwise_singleton _ _
  obtain ⟨hclosed, hstays, hdeaf⟩ := polls_answered {} .zero ops hpairs
  have hyes : p.answer ops ⟨0, .ofMillis 1031⟩ = true := by
    apply (hclosed _).mpr
    exact ⟨by decide, .inr (.inr ⟨⟨1, .ofMillis 30⟩, List.mem_cons_self, by decide⟩)⟩
  refine ⟨hyes, ?_, (hdeaf _).symm.trans hyes⟩
  apply hstays ⟨0, .ofMillis 1031⟩ [.poll ⟨0, .ofMillis 1032⟩] _ (by decide) _ hyes
  · exact .inl (by decide)
  · unfold Epoch.Ordered
    decide

end BuildPolicy

end Conclave

import Conclave.Proofs.ExecutorPulses
import Conclave.Proofs.SignatureEquivocation

/-!
# Manager, executor and pipeline stay together

At most one operation is under way, and while one is, the executor does nothing else. A block that
the manager has or is prepared on is the block at hand. It is also the one that the pipeline could
commit, as long as nobody stops the pipeline or hands it blocks past the executor and no commit
fails.
-/

namespace Conclave

variable {n : ℕ}

/-- The block that has come with a successful build or load. -/
def Answer.brought? : Answer Task → Option Block
  | ⟨.build, .ok (b, _)⟩ => some b
  | ⟨.load b, .ok _⟩ => some b
  | _ => none

lemma Answer.isOperation_of_brought {a : Answer Task} {b : Block} (h : a.brought? = some b) :
    a.task.isOperation = true := by
  obtain ⟨t, result⟩ := a
  cases t <;> first | rfl | cases h

/-- What a job has brought is pending after it. -/
lemma Ran.block_of_brought {a : Answer Task} {b : Block} {w w' : Worker (Engine n) (Builder n)}
    (h : Ran w a.task.job a.result w') (hb : a.brought? = some b) :
    w'.builder.map Builder.block = some b := by
  obtain ⟨t, result⟩ := a
  cases result with
  | error cause => cases t <;> cases hb
  | ok reply =>
    cases t with
    | build =>
      obtain ⟨b', s⟩ := reply
      cases hb
      cases h with
      | built chain height builder => exact builder
    | load b' =>
      cases hb
      cases h with
      | loaded chain height builder => exact builder
    | add | commit | verify | serveBlock | serveSignature | chainHeight | fastAdd => cases hb

def Task.isCommit : Task → Bool
  | .commit .. => true
  | _ => false

def Answer.failsCommit : Answer Task → Bool
  | ⟨.commit .., .error _⟩ => true
  | _ => false

/-! ### Operations under way -/

namespace Executor

open Manager (PreparedOn Gentle)

variable {x y : Executor n} {t : Task} {a : Answer Task} {answers : List (Answer Task)}

/-- The tasks that are queued, or done with their answers waiting. A task that runs is done at
once. -/
def outstanding (x : Executor n) : List Task := x.pipeline.queue ++ x.answers.map (·.task)

lemma task_mem_outstanding (h : a ∈ x.answers) : a.task ∈ x.outstanding :=
  List.mem_append_right _ (List.mem_map_of_mem h)

/-- How many operations are under way. -/
def underWay (x : Executor n) : ℕ := x.outstanding.countP Task.isOperation

lemma underWay_eq (x : Executor n) : x.underWay =
    x.pipeline.queue.countP Task.isOperation + x.answers.countP (fun a => a.task.isOperation) := by
  unfold underWay outstanding
  rw [List.countP_append, List.countP_map]
  rfl

lemma outstanding_submit (x : Executor n) (t : Task) :
    (x.submit t).outstanding.Perm (t :: x.outstanding) := by
  unfold outstanding
  rcases submit_tasks x t with ⟨hq, ha⟩ | ⟨hq, ha⟩
  · rw [hq, ha, List.append_assoc]
    exact List.perm_middle
  · rw [hq, ha, List.map_append, ← List.append_assoc]
    exact List.perm_append_singleton t _

lemma outstanding_next {order : BuildOrder} {p : Pipeline (Engine n) (Builder n) Task}
    (h : x.pipeline.next order = some (a, p)) (effects : List Effect) :
    ({ x with pipeline := p, answers := x.answers ++ [a], effects } : Executor n).outstanding.Perm
      x.outstanding := by
  obtain ⟨hqueue, -⟩ := Pipeline.next_cases h
  unfold outstanding
  rw [hqueue, List.map_append, ← List.append_assoc]
  exact List.perm_append_singleton a.task _

lemma outstanding_conclude (h : x.answers.Perm (a :: answers)) :
    x.outstanding.Perm (a.task :: ({ x with answers } : Executor n).outstanding) := by
  have hmap : (x.answers.map (·.task)).Perm (a.task :: answers.map (·.task)) := h.map _
  unfold outstanding
  exact (hmap.append_left _).trans List.perm_middle

/-! ### Order -/

/-- The manager is ready for the operation, done or not. -/
def Suits (x : Executor n) (t : Task) : Prop :=
  x.manager.own.phase = .waitBlock ∨ ∃ b signatures, t = .commit b signatures ∧
    x.manager.PreparedOn b.rid

lemma Suits.waits (h : x.Suits t) (hne : ∀ b signatures, t ≠ .commit b signatures) :
    x.manager.own.phase = .waitBlock := by
  rcases h with hwaits | ⟨b, signatures, heq, -⟩
  · exact hwaits
  · exact (hne b signatures heq).elim

/-- At most one operation is under way; it fits the manager, and the executor does nothing besides.
A block that is not waited for any more is at hand. -/
structure Orderly (x : Executor n) : Prop where
  coherent : x.manager.Coherent
  count : x.underWay = x.busy.toNat
  quiet : x.busy = true → x.intent = .doNothing
  defers : x.intent ≠ .buildBlock ∧ x.intent ≠ .commitBlock
  fetches : ((∃ rid, x.intent = .fetchUnfinishedBlock rid) ∨
    ∃ height, x.intent = .fetchBlockAtHeight height) → x.manager.own.phase = .waitBlock
  suits : ∀ t ∈ x.outstanding, t.isOperation = true → x.Suits t
  held : x.manager.own.phase ≠ .waitBlock →
    ∃ b, x.block = some b ∧ x.manager.own.rid = some b.rid

/-- Behind an operation in the queue no other one has its answer waiting. -/
lemma Orderly.alone (h : x.Orderly) {queue : List Task} (hqueue : x.pipeline.queue = t :: queue)
    (hop : t.isOperation = true) : ∀ c ∈ x.answers, c.task.isOperation = false := by
  have hcount := h.count
  have hle := Bool.toNat_le x.busy
  rw [underWay_eq, hqueue, List.countP_cons, if_pos hop] at hcount
  have hnone : x.answers.countP (fun a => a.task.isOperation) = 0 := by omega
  intro c hc
  simpa using List.countP_eq_zero.mp hnone c hc

/-- Where there is nothing to catch up with, the block at hand stays. -/
lemma blockAfterSync_of_own_eq {committed : ℕ}
    (h : (x.manager.respond (.fastForward committed)).1.own = x.manager.own) :
    x.blockAfterSync committed = x.block := by
  unfold blockAfterSync
  simp [h]

namespace Orderly

lemma told (h : x.Orderly) {manager : Manager n} (hg : Gentle x.manager manager) :
    Orderly { x with manager } where
  coherent := hg.coherent h.coherent
  count := h.count
  quiet := h.quiet
  defers := h.defers
  fetches hi := hg.waits (h.fetches hi)
  suits t ht hop := by
    rcases h.suits t ht hop with hwaits | ⟨b, signatures, heq, hprepared⟩
    · exact .inl (hg.waits hwaits)
    · exact .inr ⟨b, signatures, heq, hg.lock b.rid hprepared⟩
  held hp := by
    obtain ⟨hp', hr⟩ := hg.steady hp
    simp only [hr]
    exact h.held hp'

/-- The same tasks are outstanding, whatever the pipeline has made of them. -/
lemma rework (h : x.Orderly) {p : Pipeline (Engine n) (Builder n) Task} {effects : List Effect}
    (hperm : ({ x with pipeline := p, answers, effects } : Executor n).outstanding.Perm
      x.outstanding) :
    Orderly { x with pipeline := p, answers, effects } where
  coherent := h.coherent
  count := (hperm.countP_eq _).trans h.count
  quiet := h.quiet
  defers := h.defers
  fetches := h.fetches
  suits t ht := h.suits t (hperm.mem_iff.mp ht)
  held := h.held

/-- A task that suits the manager is handed to the pipeline. -/
lemma submit (h : x.Orderly) {busy : Bool} {intent : Intent}
    (hcount : x.busy.toNat + t.isOperation.toNat = busy.toNat)
    (hintent : intent = .doNothing ∨ (busy = x.busy ∧ intent = x.intent))
    (hsuits : t.isOperation = true → x.Suits t) :
    Orderly ({ x with busy, intent }.submit t) where
  coherent := h.coherent
  count := by
    unfold underWay
    rw [(outstanding_submit _ t).countP_eq, List.countP_cons]
    change x.underWay + _ = busy.toNat
    rw [h.count, ← hcount]
    cases t.isOperation <;> rfl
  quiet hb := by
    rcases hintent with rfl | ⟨rfl, rfl⟩
    · rfl
    · exact h.quiet hb
  defers := by
    rcases hintent with rfl | ⟨-, rfl⟩
    · simp
    · exact h.defers
  fetches hi := by
    rcases hintent with rfl | ⟨-, rfl⟩
    · simp at hi
    · exact h.fetches hi
  suits u hu hop := by
    rcases List.mem_cons.mp ((outstanding_submit _ t).mem_iff.mp hu) with rfl | hold
    · exact hsuits hop
    · exact h.suits u hold hop
  held := h.held

lemma suits_of_wants (h : x.Orderly) (hwanted : x.Wants t) : x.Suits t := by
  cases t with
  | build => exact .inl (h.coherent.waits_to_take (.inr hwanted))
  | load b => exact .inl (h.fetches (.inl ⟨b.rid, hwanted⟩))
  | add b height => exact .inl (h.fetches (.inr ⟨height, hwanted⟩))
  | commit b signatures =>
    obtain ⟨hi, hb, -⟩ := hwanted
    have hp := h.coherent.prepared_of_committing hi
    obtain ⟨b', hb', hr⟩ := h.held (by simp [hp])
    rw [hb] at hb'
    cases hb'
    exact .inr ⟨b, signatures, rfl, hp, hr⟩
  | verify | serveBlock | serveSignature | chainHeight | fastAdd => cases hwanted

/-! ### The end of a task -/

lemma count_conclude (h : x.Orderly) (hperm : x.answers.Perm (a :: answers)) :
    ({ x with answers } : Executor n).underWay = (!a.task.isOperation && x.busy).toNat ∧
      (a.task.isOperation = true → x.busy = true) := by
  have hcount := h.count
  unfold underWay at hcount
  rw [(outstanding_conclude hperm).countP_eq, List.countP_cons] at hcount
  change ({ x with answers } : Executor n).underWay + _ = _ at hcount
  have hle := Bool.toNat_le x.busy
  by_cases hop : a.task.isOperation = true
  · rw [if_pos hop] at hcount
    have hbusy : x.busy.toNat = 1 := by omega
    rw [hop, Bool.not_true, Bool.false_and, Bool.toNat_false]
    exact ⟨by omega, fun _ => by simpa using hbusy⟩
  · rw [if_neg hop] at hcount
    simpa [hop] using hcount

lemma mem_outstanding (hperm : x.answers.Perm (a :: answers)) : a.task ∈ x.outstanding :=
  (outstanding_conclude hperm).mem_iff.mpr List.mem_cons_self

lemma suits_answer (h : x.Orderly) (hperm : x.answers.Perm (a :: answers))
    (hop : a.task.isOperation = true) : x.Suits a.task :=
  h.suits a.task (mem_outstanding hperm) hop

/-- With its one operation over, the executor is free for the next one. -/
lemma conclude_operation (h : x.Orderly) (hperm : x.answers.Perm (a :: answers))
    (hop : a.task.isOperation = true) {manager : Manager n} {block : Option Block}
    (hcoherent : manager.Coherent)
    (hheld : manager.own.phase ≠ .waitBlock → ∃ b, block = some b ∧ manager.own.rid = some b.rid) :
    Orderly { x with manager, answers, block, busy := !a.task.isOperation && x.busy } := by
  obtain ⟨hcount, hbusy⟩ := h.count_conclude hperm
  have hrest := h.quiet (hbusy hop)
  have hnone : ({ x with answers } : Executor n).underWay = 0 := by simpa [hop] using hcount
  refine ⟨hcoherent, hcount, by simp [hop], h.defers, fun hi => ?_, fun t ht hop' => ?_, hheld⟩
  · rw [hrest] at hi
    simp at hi
  · exact absurd hop' (List.countP_eq_zero.mp hnone t ht)

/-- A task that is no operation may leave the manager gently changed. -/
lemma conclude_aside (h : x.Orderly) (hperm : x.answers.Perm (a :: answers))
    (hop : a.task.isOperation = false) {manager : Manager n} (hg : Gentle x.manager manager) :
    Orderly { x with manager, answers, busy := !a.task.isOperation && x.busy } := by
  obtain ⟨hcount, -⟩ := h.count_conclude hperm
  have htold := h.told hg
  rw [hop] at hcount ⊢
  refine ⟨htold.coherent, hcount, htold.quiet, htold.defers, htold.fetches, fun t ht => ?_,
    htold.held⟩
  exact htold.suits t ((outstanding_conclude hperm).mem_iff.mpr (List.mem_cons_of_mem _ ht))

/-- The block of a build or a load comes to hand if the manager takes it. -/
lemma held_of_brought (hwaits : x.manager.own.phase = .waitBlock) {b : Block} {s : Signature}
    {input : Manager.Input} (hi : input = .received b.rid s ∨ input = .built b.rid s)
    (hp : (x.manager.respond input).1.own.phase ≠ .waitBlock) :
    ∃ b', (if (x.manager.respond input).2 then some b else x.block) = some b' ∧
      (x.manager.respond input).1.own.rid = some b'.rid := by
  rcases Manager.respond_block x.manager hi with hm | ⟨cause, hm⟩
  · rw [hm] at hp ⊢
    exact ⟨b, rfl, Manager.rid_of_taken hp⟩
  · rw [hm] at hp
    exact (hp hwaits).elim

/-- Told of a block in the chain, a manager waits for the next one, or goes on waiting. -/
lemma waits_of_grown {input : Manager.Input}
    (hi : (∃ height, input = .heightAdvance height) ∨ ∃ rid, input = .committed rid)
    (h : x.manager.own.phase = .waitBlock ∨ (x.manager.respond input).2 = true) :
    (x.manager.respond input).1.own.phase = .waitBlock := by
  rcases Manager.respond_grown x.manager hi with hm | ⟨cause, hm⟩
  · rw [hm]
    exact Manager.waits_advanceHeight x.manager
  · rw [hm] at h ⊢
    exact h.resolve_right (by simp)

/-- Once a commit is done, the manager waits for the next block. -/
lemma waits_of_committed {b : Block} {signatures : List (Option Signature)}
    (hsuits : x.Suits (.commit b signatures)) :
    (x.manager.respond (.committed b.rid)).1.own.phase = .waitBlock := by
  refine waits_of_grown (.inr ⟨b.rid, rfl⟩) ?_
  rcases hsuits with hwaits | ⟨c, signatures', heq, hprepared⟩
  · exact .inl hwaits
  · cases heq
    rw [Manager.respond_committed hprepared.2]
    exact .inr rfl

lemma conclude (h : x.Orderly) (hperm : x.answers.Perm (a :: answers)) {manager : Manager n}
    {block : Option Block} (told : x.Tells a manager block) :
    Orderly { x with manager, answers, block, busy := !a.task.isOperation && x.busy } := by
  cases told with
  | nothing =>
    by_cases hop : a.task.isOperation = true
    · exact h.conclude_operation hperm hop h.coherent h.held
    · exact h.conclude_aside hperm (by simpa using hop) (Manager.gentle_refl _)
  | @report t reply input said =>
    have hcoherent := h.coherent.respond input
    have hsuits : t.isOperation = true → x.Suits t := h.suits_answer hperm
    cases t with
    | build =>
      obtain ⟨b, s⟩ := reply
      cases said
      exact h.conclude_operation hperm rfl hcoherent
        (held_of_brought ((hsuits rfl).waits (by simp)) (.inr rfl))
    | load b =>
      cases said
      exact h.conclude_operation hperm rfl hcoherent
        (held_of_brought ((hsuits rfl).waits (by simp)) (.inl rfl))
    | add b height =>
      cases said
      have hwaits := waits_of_grown (.inl ⟨height + 1, rfl⟩) (.inl ((hsuits rfl).waits (by simp)))
      exact h.conclude_operation hperm rfl hcoherent fun hp => absurd hwaits hp
    | commit b signatures =>
      cases said
      have hwaits := waits_of_committed (hsuits rfl)
      exact h.conclude_operation hperm rfl hcoherent fun hp => absurd hwaits hp
    | verify sender rid s =>
      simp only [Task.report?] at said
      split at said
      · cases said
        exact h.conclude_aside hperm rfl (h.coherent.gentle_respond _ rfl rfl)
      · cases said
    | serveBlock | serveSignature | chainHeight | fastAdd => cases said

/-- A manager that has caught up waits for a block; otherwise nothing has changed for it. -/
lemma leave (h : x.Orderly) (committed : ℕ) :
    Orderly { x with
      manager := (x.manager.respond (.fastForward committed)).1
      block := x.blockAfterSync committed } := by
  have hcoherent := h.coherent.respond (.fastForward committed)
  rcases Manager.respond_fastForward x.manager committed with hwaits | hown
  · exact ⟨hcoherent, h.count, h.quiet, h.defers, fun _ => hwaits, fun _ _ _ => .inl hwaits,
      fun hp => absurd hwaits hp⟩
  · have hblock := blockAfterSync_of_own_eq hown
    refine ⟨hcoherent, h.count, h.quiet, h.defers, fun hi => ?_, fun t ht hop => ?_, ?_⟩
    · simp only [hown]
      exact h.fetches hi
    · unfold Suits Manager.PreparedOn
      simp only [hown]
      exact h.suits t ht hop
    · simp only [hown, hblock]
      exact h.held

/-! ### Every happening -/

theorem pulse {heard : ℕ → Rid → Signature → Prop} {fast : Prop} (h : x.Orderly)
    (hpulse : Pulse heard fast x y) : y.Orderly := by
  cases hpulse with
  | books => exact ⟨h.coherent, h.count, h.quiet, h.defers, h.fetches, h.suits, h.held⟩
  | rest =>
    exact ⟨h.coherent, h.count, fun _ => rfl, by simp, fun hi => by simp at hi, h.suits, h.held⟩
  | follow idle build commit =>
    refine ⟨h.coherent, h.count, fun hb => ?_, ⟨build, commit⟩, fun hi => ?_, h.suits, h.held⟩
    · rw [idle] at hb
      cases hb
    · rcases hi with hload | ⟨height, hadd⟩
      · exact h.coherent.waits_to_take (.inl hload)
      · exact (h.coherent.catches_up hadd).1
  | tell input plain stays =>
    exact h.told (h.coherent.gentle_respond input stays (Manager.takes_of_isPlain plain))
  | ask t aside =>
    exact h.submit (by simp [aside]) (.inr ⟨rfl, rfl⟩) (by simp [aside])
  | check sender rid s =>
    exact h.submit rfl (.inr ⟨rfl, rfl⟩) nofun
  | operate t operation idle wanted =>
    exact h.submit (by simp [operation, idle]) (.inl rfl) fun _ => h.suits_of_wants wanted
  | exit =>
    refine h.rework ?_
    unfold outstanding
    rw [(calm_exit x).queue]
  | stop => exact h.rework (.refl _)
  | supply => exact h.rework (.refl _)
  | conclude answered told => exact h.conclude answered told
  | leave committed => exact h.leave committed

theorem stirs {heard : ℕ → Rid → Signature → Prop} {fast : Prop} (h : x.Orderly)
    (hstirs : Stirs heard fast x y) : y.Orderly := by
  cases hstirs with
  | pulses pulses => exact pulses.invariant (fun _ _ hpulse hx => hx.pulse hpulse) h
  | work next => exact h.rework (outstanding_next next _)

end Orderly

/-! ### The pending block -/

/-- Nobody has stopped the pipeline, and there is no fetched block for it to add past the
executor. -/
structure Undisturbed (x : Executor n) : Prop where
  running : x.pipeline.stopped = false
  noFastAdd : ∀ b, .fastAdd b ∉ x.pipeline.queue

/-- Nothing has cost the pipeline a pending block. -/
def Spared (x : Executor n) : Prop := x.Undisturbed ∧ ∀ a ∈ x.answers, a.failsCommit = false

/-- Until it is committed, the block in hand is what the pipeline could commit. -/
structure Stocked (x : Executor n) : Prop where
  loyal : ∀ a ∈ x.answers, a.failsCommit = false
  pending : x.manager.own.phase ≠ .waitBlock → (∀ a ∈ x.answers, a.task.isCommit = false) →
    x.pendingBlock = x.block
  brought : ∀ a ∈ x.answers, ∀ b, a.brought? = some b → x.pendingBlock = some b

section

variable {heard : ℕ → Rid → Signature → Prop} {fast : Prop}

lemma stopped_submit (x : Executor n) (t : Task) :
    (x.submit t).pipeline.stopped = x.pipeline.stopped := by
  rw [submit_eq]
  unfold Pipeline.submit
  split <;> rfl

lemma subset_queue_submit (x : Executor n) (t : Task) :
    x.pipeline.queue ⊆ (x.submit t).pipeline.queue := by
  rcases submit_tasks x t with ⟨hq, -⟩ | ⟨hq, -⟩
  · rw [hq]
    exact List.subset_append_left _ _
  · rw [hq]
    exact List.Subset.refl _

lemma answers_submit (h : x.pipeline.stopped = false) (t : Task) :
    (x.submit t).answers = x.answers := by
  rw [submit_eq]
  simp [Pipeline.submit, h]

lemma exit_of_running (h : x.pipeline.stopped = false) : x.pipeline.exit = x.pipeline := by
  simp [Pipeline.exit, h]

/-- No pulse makes up for a disturbance. -/
lemma Pulse.undisturbed (h : Pulse heard fast x y) (hy : y.Undisturbed) : x.Undisturbed := by
  have hsubmit : ∀ (z : Executor n) t, (z.submit t).Undisturbed → z.Undisturbed := fun z t hz =>
    ⟨(stopped_submit z t).symm.trans hz.running,
      fun b hb => hz.noFastAdd b (subset_queue_submit z t hb)⟩
  cases h with
  | books | rest | follow | tell | supply | conclude | leave => exact ⟨hy.running, hy.noFastAdd⟩
  | ask t => exact hsubmit x t hy
  | check sender rid s => exact hsubmit x _ hy
  | operate t => exact ⟨(hsubmit _ t hy).running, (hsubmit _ t hy).noFastAdd⟩
  | exit =>
    have hrunning : x.pipeline.stopped = false := by
      have hstopped : x.pipeline.exit.stopped = x.pipeline.stopped := by
        unfold Pipeline.exit
        split <;> rfl
      exact hstopped.symm.trans hy.running
    have hnone := hy.noFastAdd
    rw [exit_of_running hrunning] at hnone
    exact ⟨hrunning, hnone⟩
  | stop => cases hy.running

/-- Outside fast sync no block comes to the pipeline past the executor. -/
lemma Stirs.noFastAdd (h : Stirs heard False x y) (hx : ∀ b, .fastAdd b ∉ x.pipeline.queue) :
    ∀ b, .fastAdd b ∉ y.pipeline.queue := by
  have hsubmit : ∀ (z : Executor n) t, (∀ b, t ≠ .fastAdd b) →
      (∀ b, .fastAdd b ∉ z.pipeline.queue) → ∀ b, .fastAdd b ∉ (z.submit t).pipeline.queue :=
    fun z t ht hz b hb => (mem_queue_submit hb).elim (hz b) fun heq => ht b heq.symm
  cases h with
  | pulses pulses =>
    refine pulses.invariant (P := fun z => ∀ b, .fastAdd b ∉ z.pipeline.queue) ?_ hx
    intro z w hpulse hz
    cases hpulse with
    | books | rest | follow | tell | supply | conclude | stop => exact hz
    | ask t aside other own =>
      refine hsubmit z t (fun b heq => own ?_) hz
      rw [heq]
      rfl
    | check => exact hsubmit z _ (by simp) hz
    | operate t operation =>
      refine hsubmit _ t (fun b heq => ?_) hz
      rw [heq] at operation
      cases operation
    | exit =>
      intro b hb
      rw [(calm_exit z).queue] at hb
      exact hz b hb
    | leave committed during => exact during.elim
  | work next =>
    obtain ⟨hqueue, -⟩ := Pipeline.next_cases next
    intro b hb
    refine hx b ?_
    rw [hqueue]
    exact List.mem_cons_of_mem _ hb

namespace Stocked

lemma told (h : x.Stocked) {manager : Manager n} (hg : Gentle x.manager manager) :
    Stocked { x with manager } :=
  ⟨h.loyal, fun hp => h.pending (hg.steady hp).1, h.brought⟩

lemma submit (h : x.Stocked) (hrunning : x.pipeline.stopped = false) (busy : Bool)
    (intent : Intent) (t : Task) : Stocked ({ x with busy, intent }.submit t) := by
  have hsame : ({ x with busy, intent }.submit t).pendingBlock = x.pendingBlock := by
    unfold pendingBlock
    rw [submit_worker]
  have hanswers : ({ x with busy, intent }.submit t).answers = x.answers :=
    answers_submit (x := { x with busy, intent }) hrunning t
  refine ⟨?_, fun hp hnone => ?_, ?_⟩
  · rw [hanswers]
    exact h.loyal
  · rw [hanswers] at hnone
    rw [hsame]
    exact h.pending hp hnone
  · rw [hanswers, hsame]
    exact h.brought

/-- A block that comes to hand is the pending one. -/
lemma pending_of_brought {b : Block} {s : Signature} {input : Manager.Input}
    (hpending : x.pendingBlock = some b) (hwaits : x.manager.own.phase = .waitBlock)
    (hi : input = .received b.rid s ∨ input = .built b.rid s)
    (hp : (x.manager.respond input).1.own.phase ≠ .waitBlock) :
    x.pendingBlock = if (x.manager.respond input).2 then some b else x.block := by
  rcases Manager.respond_block x.manager hi with hm | ⟨cause, hm⟩
  · rw [hm]
    exact hpending
  · rw [hm] at hp
    exact (hp hwaits).elim

/-- An answer is taken out. What it has brought is pending still. -/
lemma conclude (h : x.Stocked) (ho : x.Orderly) (hperm : x.answers.Perm (a :: answers))
    {manager : Manager n} {block : Option Block} (told : x.Tells a manager block) :
    Stocked { x with manager, answers, block, busy := !a.task.isOperation && x.busy } := by
  have hmem : ∀ c ∈ answers, c ∈ x.answers := fun c hc =>
    hperm.mem_iff.mpr (List.mem_cons_of_mem _ hc)
  have ha : a ∈ x.answers := hperm.mem_iff.mpr List.mem_cons_self
  refine ⟨fun c hc => h.loyal c (hmem c hc), ?_, fun c hc => h.brought c (hmem c hc)⟩
  -- The answer of a commit is one of success, and leaves the manager waiting.
  have hkept : a.task.isCommit = false → (∀ c ∈ answers, c.task.isCommit = false) →
      ∀ c ∈ x.answers, c.task.isCommit = false := fun hno hnone c hc => by
    rcases List.mem_cons.mp (hperm.mem_iff.mp hc) with rfl | hold
    · exact hno
    · exact hnone c hold
  cases told with
  | nothing silent =>
    refine fun hp hnone => h.pending hp (hkept ?_ hnone)
    obtain ⟨t, result⟩ := a
    cases t with
    | commit b signatures =>
      cases result with
      | error cause => cases h.loyal _ ha
      | ok reply => cases silent
    | build | load | add | verify | serveBlock | serveSignature | chainHeight | fastAdd => rfl
  | @report t reply input said =>
    have hsuits : t.isOperation = true → x.Suits t := ho.suits_answer hperm
    cases t with
    | build =>
      obtain ⟨b, s⟩ := reply
      cases said
      exact fun hp _ => pending_of_brought (h.brought _ ha b rfl)
        ((hsuits rfl).waits (by simp)) (.inr rfl) hp
    | load b =>
      cases said
      exact fun hp _ => pending_of_brought (h.brought _ ha b rfl)
        ((hsuits rfl).waits (by simp)) (.inl rfl) hp
    | add b height =>
      cases said
      exact fun hp => absurd (Orderly.waits_of_grown (.inl ⟨height + 1, rfl⟩)
        (.inl ((hsuits rfl).waits (by simp)))) hp
    | commit b signatures =>
      cases said
      exact fun hp => absurd (Orderly.waits_of_committed (hsuits rfl)) hp
    | verify sender rid s =>
      simp only [Task.report?] at said
      split at said
      · cases said
        have hg := ho.coherent.gentle_respond (.commitSignature sender rid s) rfl rfl
        exact fun hp hnone => h.pending (hg.steady hp).1 (hkept rfl hnone)
      · cases said
    | serveBlock | serveSignature | chainHeight | fastAdd => cases said

lemma leave (h : x.Stocked) (committed : ℕ) :
    Stocked { x with
      manager := (x.manager.respond (.fastForward committed)).1
      block := x.blockAfterSync committed } := by
  refine ⟨h.loyal, fun hp hnone => ?_, h.brought⟩
  rcases Manager.respond_fastForward x.manager committed with hwaits | hown
  · exact absurd hwaits hp
  · have hblock := blockAfterSync_of_own_eq hown
    simp only [hown] at hp
    rw [hblock]
    exact h.pending hp hnone

theorem pulse (h : x.Stocked) (ho : x.Orderly) (hu : x.Undisturbed)
    (hpulse : Pulse heard fast x y) : y.Stocked := by
  cases hpulse with
  | books | rest | follow | stop | supply => exact ⟨h.loyal, h.pending, h.brought⟩
  | tell input plain stays =>
    exact h.told (ho.coherent.gentle_respond input stays (Manager.takes_of_isPlain plain))
  | ask t => exact h.submit hu.running x.busy x.intent t
  | check sender rid s => exact h.submit hu.running x.busy x.intent _
  | operate t => exact h.submit hu.running true .doNothing t
  | exit =>
    rw [exit_of_running hu.running]
    exact h
  | conclude answered told => exact h.conclude ho answered told
  | leave committed => exact h.leave committed

/-- A job of the pipeline keeps the block in hand pending, unless a block is added past the executor
or a commit fails. -/
theorem work (h : x.Stocked) (ho : x.Orderly) (hu : x.Undisturbed) {order : BuildOrder}
    {p : Pipeline (Engine n) (Builder n) Task} (hnext : x.pipeline.next order = some (a, p))
    (hloyal : a.failsCommit = false) (effects : List Effect) :
    Stocked { x with pipeline := p, answers := x.answers ++ [a], effects } := by
  obtain ⟨hqueue, hran⟩ := Pipeline.next_cases hnext
  have hmem : a.task ∈ x.outstanding := by simp [outstanding, hqueue]
  have hloyal' : ∀ c ∈ x.answers ++ [a], c.failsCommit = false := fun c hc => by
    rcases List.mem_append.mp hc with hold | hnew
    · exact h.loyal c hold
    · rwa [List.mem_singleton.mp hnew]
  by_cases hop : a.task.isOperation = true
  · refine ⟨hloyal', fun hp hnone => ?_, fun c hc b hb => ?_⟩
    · rcases ho.suits a.task hmem hop with hwaits | ⟨b, signatures, heq, -⟩
      · exact absurd hwaits hp
      · have hno := hnone a (by simp)
        rw [heq] at hno
        cases hno
    · rcases List.mem_append.mp hc with hold | hnew
      · have hno := ho.alone hqueue hop c hold
        rw [Answer.isOperation_of_brought hb] at hno
        cases hno
      · rw [List.mem_singleton.mp hnew] at hb
        exact hran.block_of_brought hb
  · have hno : a.task.isOperation = false := by simpa using hop
    have hfast : ∀ b, a.task ≠ .fastAdd b := fun b heq => by
      refine hu.noFastAdd b ?_
      rw [hqueue, heq]
      exact List.mem_cons_self
    have hsame : p.worker.builder.map Builder.block = x.pendingBlock := by
      rcases Pipeline.next_worker hnext with ⟨hworker, -⟩ | hrun
      · rw [hworker]
        rfl
      · have hblock := Worker.block_run hno hfast x.pipeline.worker order
        rw [hrun] at hblock
        exact hblock
    refine ⟨hloyal', fun hp hnone => ?_, fun c hc b hb => ?_⟩
    · exact hsame.trans (h.pending hp fun c hc => hnone c (List.mem_append_left _ hc))
    · rcases List.mem_append.mp hc with hold | hnew
      · exact hsame.trans (h.brought c hold b hb)
      · rw [List.mem_singleton.mp hnew] at hb
        rw [Answer.isOperation_of_brought hb] at hno
        cases hno

theorem stirs (h : x.Stocked) (ho : x.Orderly) (hx : x.Spared) (hy : y.Spared)
    (hstirs : Stirs heard fast x y) : y.Stocked := by
  cases hstirs with
  | pulses pulses =>
    have hall : y.Orderly ∧ (y.Undisturbed → y.Stocked) := by
      refine pulses.invariant (P := fun z => z.Orderly ∧ (z.Undisturbed → z.Stocked)) ?_
        ⟨ho, fun _ => h⟩
      rintro z w hpulse ⟨hz, hstocked⟩
      refine ⟨hz.pulse hpulse, fun hw => ?_⟩
      have hzu := hpulse.undisturbed hw
      exact (hstocked hzu).pulse hz hzu hpulse
    exact hall.2 hy.1
  | work next => exact h.work ho hx.1 next (hy.2 _ (by simp)) _

end Stocked

end

end Executor

/-! ### Whole runs -/

namespace Runner

variable {v : Validator n} {config : Config} {me : Fin n} {height wallMillis : ℕ}
  {policy : BuildPolicy} {engine : Engine n} {es : List Happening}

/-- The first state of a run. -/
lemma orderly_start (hv : v.toExecutor =
      { manager := .start config me height wallMillis, policy,
        pipeline := ⟨⟨engine, none⟩, [], false, false, 0⟩ }) (time : Duration) :
    (start v time).toExecutor.Orderly ∧ (start v time).toExecutor.Undisturbed ∧
      (start v time).toExecutor.Stocked := by
  have hwaits := Manager.waits_start config me height wallMillis
  have hfresh : v.toExecutor.Orderly ∧ v.toExecutor.Undisturbed ∧ v.toExecutor.Stocked := by
    rw [hv]
    refine ⟨⟨Manager.coherent_start config me height wallMillis, rfl, nofun, by simp, by simp,
      by simp [Executor.outstanding], fun hp => absurd hwaits hp⟩, ⟨rfl, by simp⟩,
      ⟨by simp, fun hp => absurd hwaits hp, by simp⟩⟩
  obtain ⟨ho, hu, hs⟩ := hfresh
  exact ⟨⟨ho.coherent, ho.count, ho.quiet, ho.defers, ho.fetches, ho.suits, ho.held⟩,
    ⟨hu.running, hu.noFastAdd⟩, ⟨hs.loyal, hs.pending, hs.brought⟩⟩

lemma orderly_of_mem_trail (hv : v.toExecutor =
      { manager := .start config me height wallMillis, policy,
        pipeline := ⟨⟨engine, none⟩, [], false, false, 0⟩ }) (time : Duration) :
    ∀ x ∈ (start v time).trail es, x.toExecutor.Orderly := by
  have hfast : ∀ y ∈ (start v time).trail es, y.inConsensus = false → True := fun _ _ _ => trivial
  exact start_stirs_invariant hfast (fun _ _ hstirs h => h.stirs hstirs) (orderly_start hv time).1

/-- `P` holds at every moment from `i` to `j`. -/
def Throughout (trail : List (Runner n)) (i j : ℕ) (P : Runner n → Prop) : Prop :=
  ∀ (k : ℕ) (z : Runner n), i ≤ k → k ≤ j → trail[k]? = some z → P z

/-- What every happening between two moments preserves holds at the later one. -/
lemma orderly_between {P : Executor n → Prop} (hv : v.toExecutor =
      { manager := .start config me height wallMillis, policy,
        pipeline := ⟨⟨engine, none⟩, [], false, false, 0⟩ }) (time : Duration) {i j : ℕ}
    (hij : i ≤ j) {x y : Runner n} (hx : ((start v time).trail es)[i]? = some x)
    (hy : ((start v time).trail es)[j]? = some y)
    (hstep : ∀ (k : ℕ) (a b : Runner n), i ≤ k → k < j →
      ((start v time).trail es)[k]? = some a → ((start v time).trail es)[k + 1]? = some b →
        a.Orderly → Executor.Stirs (Heard es) True a.toExecutor b.toExecutor →
          P a.toExecutor → P b.toExecutor) (hP : P x.toExecutor) : P y.toExecutor := by
  have hfast : ∀ y ∈ (start v time).trail es, y.inConsensus = false → True := fun _ _ _ => trivial
  refine stirs_between (attentive_start v time) (fun _ _ _ hs => hs) hfast hij hx hy ?_ hP
  intro k a b hik hkj ha hb
  exact hstep k a b hik hkj ha hb (orderly_of_mem_trail hv time a (List.mem_of_getElem? ha))

/-- Between two moments the block in hand stays pending, unless something costs the pipeline its
pending block. -/
lemma stocked_between (hv : v.toExecutor =
      { manager := .start config me height wallMillis, policy,
        pipeline := ⟨⟨engine, none⟩, [], false, false, 0⟩ }) (time : Duration) {i j : ℕ}
    (hij : i ≤ j) {x y : Runner n} (hx : ((start v time).trail es)[i]? = some x)
    (hy : ((start v time).trail es)[j]? = some y)
    (hspared : Throughout ((start v time).trail es) i j fun z => z.Spared)
    (hs : x.toExecutor.Stocked) : y.toExecutor.Stocked := by
  refine orderly_between (P := Executor.Stocked) hv time hij hx hy ?_ hs
  intro k a b hik hkj ha hb ho hstirs h
  exact h.stirs ho (hspared k a hik hkj.le ha) (hspared (k + 1) b (by omega) hkj hb) hstirs

/-- Whatever happens, at most one operation is under way, and while one is, the executor does
nothing; building and committing are never left to others. A block that the manager has or is
prepared on is the block at hand. Without fast sync, as long as the pipeline is not stopped and no
commit fails, it is also the one that the pipeline could commit, unless its commit is under way. -/
theorem executor_consistent (hv : v.toExecutor =
      { manager := .start config me height wallMillis, policy,
        pipeline := ⟨⟨engine, none⟩, [], false, false, 0⟩ }) (time : Duration) :
    ∀ x ∈ (start v time).trail es,
      x.underWay ≤ 1 ∧ (0 < x.underWay → x.intent = .doNothing) ∧
      (x.intent ≠ .buildBlock ∧ x.intent ≠ .commitBlock) ∧
      (x.manager.own.phase ≠ .waitBlock → ∃ b, x.block = some b ∧
        x.manager.own.rid = some b.rid ∧
          ((∀ y ∈ (start v time).trail es, y.inConsensus = true ∧ y.pipeline.stopped = false ∧
              ∀ a ∈ y.answers, a.failsCommit = false) →
            (∀ c signatures, .commit c signatures ∉ x.outstanding) →
              x.pendingBlock = some b)) := by
  intro x hx
  have ho := orderly_of_mem_trail hv time x hx
  have hbusy := ho.count
  have hle := Bool.toNat_le x.busy
  refine ⟨by omega, fun hpos => ho.quiet ?_, ho.defers, fun hp => ?_⟩
  · have hone : x.busy.toNat = 1 := by omega
    simpa using hone
  obtain ⟨b, hb, hr⟩ := ho.held hp
  refine ⟨b, hb, hr, fun hcalm hnone => ?_⟩
  obtain ⟨-, hundisturbed, hstocked⟩ := orderly_start hv time
  have hnoFastAdd : ∀ y ∈ (start v time).trail es, ∀ b, .fastAdd b ∉ y.pipeline.queue := by
    have hfast : ∀ y ∈ (start v time).trail es, y.inConsensus = false → False := fun y hy hno => by
      rw [(hcalm y hy).1] at hno
      cases hno
    exact start_stirs_invariant (P := fun y => ∀ b, .fastAdd b ∉ y.pipeline.queue) hfast
      (fun _ _ hstirs h => hstirs.noFastAdd h) hundisturbed.noFastAdd
  obtain ⟨j, hj⟩ := List.getElem?_of_mem hx
  have hfirst : ((start v time).trail es)[0]? = some (start v time) := by cases es <;> rfl
  have hspared : Throughout ((start v time).trail es) 0 j fun z => z.Spared :=
    fun k z _ _ hz => by
      have hmem := List.mem_of_getElem? hz
      exact ⟨⟨(hcalm z hmem).2.1, hnoFastAdd z hmem⟩, (hcalm z hmem).2.2⟩
  have hnoCommit : ∀ a ∈ x.answers, a.task.isCommit = false := fun a ha => by
    have hmem : a.task ∈ x.outstanding := Executor.task_mem_outstanding ha
    cases ht : a.task with
    | commit c signatures => exact (hnone c signatures (ht ▸ hmem)).elim
    | build | load | add | verify | serveBlock | serveSignature | chainHeight | fastAdd => rfl
  rw [← hb]
  exact (stocked_between hv time (Nat.zero_le j) hfirst hj hspared hstocked).pending hp hnoCommit

/-- A block is loaded, prepared and pending until its commit is under way. -/
theorem executor_consistent_committing :
    let trail := (start exampleValidator .zero).trail committingRun
    (∀ x ∈ trail, x.underWay ≤ 1) ∧
      (∀ x ∈ trail, x.manager.own.phase ≠ .waitBlock →
        (∀ c signatures, .commit c signatures ∉ x.outstanding) →
          ∃ b, x.pendingBlock = some b ∧ x.manager.own.rid = some b.rid) ∧
      (∃ x ∈ trail, x.manager.own.phase = .prepared ∧ x.underWay = 0) ∧
      ∃ x ∈ trail, x.manager.own.phase = .prepared ∧ x.underWay = 1 := by
  intro trail
  have hv : exampleValidator.toExecutor =
    { manager := .start {} 0 1 0, policy := { config := {}, lastBlock := .zero },
      pipeline := ⟨⟨{ me := 0, keys := exampleKeys }, none⟩, [], false, false, 0⟩ } := rfl
  have hcalm : ∀ y ∈ (start exampleValidator .zero).trail committingRun, y.inConsensus = true ∧
      y.pipeline.stopped = false ∧ ∀ a ∈ y.answers, a.failsCommit = false := by
    decide +kernel
  refine ⟨fun x hx => (executor_consistent hv .zero x hx).1, fun x hx hp hnone => ?_,
    by decide +kernel, by decide +kernel⟩
  obtain ⟨b, -, hr, hpending⟩ := (executor_consistent hv .zero x hx).2.2.2 hp
  exact ⟨b, hpending hcalm hnone, hr⟩

end Runner

end Conclave

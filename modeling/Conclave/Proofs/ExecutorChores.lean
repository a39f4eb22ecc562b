import Conclave.Proofs.Completion
import Conclave.Proofs.RevoltDeadlines
import Conclave.Validator
import Mathlib.Logic.Relation

/-!
# The chores of an executor

Whatever a validator does, its executor changes in a few ways only, its chores, besides the work of
its pipeline and the answers that are applied. This is said here once for every function. What all
chores preserve is preserved by all that a validator does.
-/

namespace Conclave

variable {n : ℕ}

/-! ### What there is to say, to tell and to want -/

/-- Entries of the log, and counters except for the one of fast-synced blocks. -/
def Effect.isLog : Effect → Bool
  | .note _ => true
  | .count counter => counter ≠ .fastSyncedBlock
  | .send .. => false

/-- Inputs that do not come from the pipeline, except for the end of a fast sync. -/
def Manager.Input.isPlain : Input → Bool
  | .status .. | .fastForward _ | .revolt | .time _ => true
  | _ => false

lemma Manager.takes_of_isPlain {input : Input} (h : input.isPlain = true) :
    input.takes = false := by
  cases input <;> simp_all [Input.isPlain, Input.takes]

/-- What the reply to a task tells the manager. -/
def Task.report? : (t : Task) → t.job.Reply → Option Manager.Input
  | .build, (b, s) => some (.built b.rid s)
  | .load b, s => some (.received b.rid s)
  | .add _ height, _ => some (.heightAdvance (height + 1))
  | .commit b _, _ => some (.committed b.rid)
  | .verify sender rid s, (valid : Bool) =>
    if valid then some (.commitSignature sender rid s) else none
  | _, _ => none

/-- The block at hand after the reply to a task, which the manager has applied or turned down. -/
def Task.blockAfter :
    (t : Task) → t.job.Reply → (applied : Bool) → Option Block → Option Block
  | .build, (b, _), applied, block => if applied then some b else block
  | .load b, _, applied, block => if applied then some b else block
  | .add .., _, applied, block => if applied then none else block
  | .commit .., _, _, _ => none
  | _, _, _, block => block

def Answer.report? (a : Answer Task) : Option Manager.Input :=
  match a.result with
  | .ok reply => a.task.report? reply
  | .error _ => none

lemma Task.aside_of_isFastSync {t : Task} (h : t.isFastSync = true) : t.isOperation = false := by
  cases t <;> first | rfl | cases h

lemma Answer.report_of_isFastSync {a : Answer Task} (h : a.task.isFastSync = true) :
    a.report? = none := by
  obtain ⟨t, result⟩ := a
  cases result with
  | error cause => rfl
  | ok reply => cases t <;> first | rfl | cases h

namespace Executor

variable {x y z : Executor n} {now : Duration}

/-- The intent calls for the operation. -/
def Wants (x : Executor n) : Task → Prop
  | .build => x.manager.intent = .buildBlock
  | .load b => x.intent = .fetchUnfinishedBlock b.rid
  | .add _ height => x.intent = .fetchBlockAtHeight height
  | .commit b signatures => x.manager.intent = .commitBlock ∧ x.block = some b ∧
      signatures = x.manager.signatures.toList
  | _ => False

/-- The block at hand when a fast sync has reached the height `committed`. -/
def blockAfterSync (x : Executor n) (committed : ℕ) : Option Block :=
  let (manager, applied) := x.manager.respond (.fastForward committed)
  if applied ∧ x.manager.own.height < manager.own.height then none else x.block

/-- The manager catches up with what a fast sync has added; the last block of that may have come
with a time. -/
def catchUp (x : Executor n) (committed : ℕ) (timestamp : Option ℕ) : Executor n :=
  let (manager, applied) := x.manager.respond (.fastForward committed)
  if applied ∧ x.manager.own.height < manager.own.height then
    { x with
      manager
      block := none
      policy := match timestamp with
        | some t => x.policy.blockCommitted (.ofMillis t)
        | none => x.policy }
  else { x with manager }

/-! ### Turning to an intent -/

/-- The flag comes up when an intent to build is left. -/
def policyAside (x : Executor n) : BuildPolicy :=
  if x.previous = .buildBlock then x.policy.setForceStop true else x.policy

/-- An executor with nothing to do but to follow its manager's intent. -/
def turned (x : Executor n) (policy : BuildPolicy) : Executor n :=
  { x with policy, previous := x.manager.intent, intent := .doNothing }

/-- What an idle executor makes of the intent of its manager. -/
inductive Turns (x : Executor n) (now : Duration) : Executor n → Prop
  /-- The intent becomes its own, unless it calls for an operation at once. -/
  | follow (build : x.manager.intent ≠ .buildBlock) (commit : x.manager.intent ≠ .commitBlock) :
      Turns x now { x.turned x.policyAside with intent := x.manager.intent }
  | commit {b : Block} (intent : x.manager.intent = .commitBlock) (held : x.block = some b) :
      Turns x now ({ x.turned x.policyAside with busy := true }.submit
        (.commit b x.manager.signatures.toList))
  | missing (intent : x.manager.intent = .commitBlock) (held : x.block = none) :
      Turns x now ((x.turned x.policyAside).note .noBlockToCommit)
  /-- A build has to wait. -/
  | pause (intent : x.manager.intent = .buildBlock) :
      Turns x now (x.turned (x.policy.setForceStop false))
  /-- There is nothing to build. -/
  | rest (intent : x.manager.intent = .buildBlock) :
      Turns x now ((x.turned (x.policy.setForceStop false)).shouldBuild now).2
  | build (intent : x.manager.intent = .buildBlock)
      (rested : (x.policy.setForceStop false).mustWait now = false) :
      Turns x now ({ ((x.turned (x.policy.setForceStop false)).shouldBuild now).2 with
        busy := true }.submit .build)

lemma operate_of_idle (hidle : x.busy = false) (t : Task) :
    x.operate t = { x with busy := true, intent := .doNothing }.submit t := by
  have hbusy : ¬x.busy = true := by simp [hidle]
  exact if_neg hbusy

lemma update_of_busy (hbusy : x.busy = true) (now : Duration) : x.update now = x := if_pos hbusy

/-- Only an idle executor acts on an intent, and only here. -/
lemma turns_update (hidle : x.busy = false) (now : Duration) : Turns x now (x.update now) := by
  have hbusy : ¬x.busy = true := by simp [hidle]
  have hleft : (if x.previous = .buildBlock ∧ x.manager.intent ≠ .buildBlock then
      x.setForceStop true else x) = { x with
        policy := if x.manager.intent = .buildBlock then x.policy else x.policyAside } := by
    unfold policyAside
    by_cases hbuild : x.manager.intent = .buildBlock
    · rw [if_pos hbuild, if_neg fun h => h.2 hbuild]
    by_cases hp : x.previous = .buildBlock
    · rw [if_neg hbuild, if_pos hp, if_pos ⟨hp, hbuild⟩]
      rfl
    · rw [if_neg hbuild, if_neg hp, if_neg fun h => hp h.1]
  unfold update
  rw [if_neg hbusy, hleft]
  simp only
  split
  · rename_i hcommit
    have hbuild : x.manager.intent ≠ .buildBlock := by simp [hcommit]
    simp only [if_neg hbuild]
    unfold commitBlock
    split
    · rename_i hnone
      exact .missing hcommit hnone
    · rename_i b hb
      rw [operate_of_idle]
      · exact .commit hcommit hb
      · exact hidle
  · rename_i hbuild
    simp only [if_pos hbuild]
    unfold buildBlock
    simp only
    split
    · exact .pause hbuild
    rename_i hover
    split
    · rw [operate_of_idle]
      · exact .build hbuild (eq_false_of_ne_true hover)
      · exact hidle
    · exact .rest hbuild
  · rename_i hcommit hbuild
    simp only [if_neg hbuild]
    exact .follow hbuild hcommit

/-- What is acted on is the manager's intent. -/
lemma Turns.previous (h : Turns x now y) : y.previous = x.manager.intent := by
  cases h <;> rfl

/-- Acting on its intent leaves a manager alone. -/
lemma Turns.manager (h : Turns x now y) : y.manager = x.manager := by
  cases h <;> rfl

lemma manager_update (x : Executor n) (now : Duration) : (x.update now).manager = x.manager := by
  cases hbusy : x.busy with
  | true => rw [update_of_busy hbusy]
  | false => exact (turns_update hbusy now).manager

/-! ### Chores -/

/-- What chores may be about. -/
structure Scope where
  allows : Effect → Prop
  log : ∀ e, e.isLog = true → allows e
  /-- The times at which an intent may be acted on. -/
  acts : Duration → Prop
  /-- The commit signatures that peers have sent. -/
  heard : ℕ → Rid → Signature → Prop
  /-- A fast sync may be under way. -/
  fast : Prop
  /-- A fast sync may come to its end. -/
  leaves : Prop

/-- No fast sync, and nothing said that `f` finds. -/
def Scope.without {α : Type} (f : Effect → Option α) (log : ∀ e, e.isLog = true → f e = none) :
    Scope where
  allows e := f e = none
  log
  acts _ := True
  heard _ _ _ := True
  fast := False
  leaves := False

/-- One change of an executor that is neither the work of its pipeline nor an answer applied, but
for the answers that a fast sync waits for. -/
inductive Chore (c : Scope) (x : Executor n) : Executor n → Prop
  | say (e : Effect) (allowed : c.allows e) : Chore c x (x.emit e)
  | tell (input : Manager.Input) (plain : input.isPlain = true) (stays : input.climbs = false) :
      Chore c x { x with manager := (x.manager.respond input).1 }
  | weigh (now : Duration) : Chore c x (x.shouldBuild now).2
  | wait (awaited : Bool) : Chore c x { x with awaited }
  /-- A task that is no operation. -/
  | ask (t : Task) (aside : t.isOperation = false)
      (other : ∀ sender rid s, t ≠ .verify sender rid s) (own : t.isFastSync = true → c.fast) :
      Chore c x (x.submit t)
  | check (sender : ℕ) (rid : Rid) (s : Signature) (prepared : x.manager.PreparedOn rid)
      (sent : c.heard sender rid s) : Chore c x (x.submit (.verify sender rid s))
  /-- A block that the intent waits for has come. -/
  | take (t : Task) (block : (∃ b, t = .load b) ∨ ∃ b height, t = .add b height)
      (idle : x.busy = false) (wanted : x.Wants t) :
      Chore c x ({ x with busy := true, intent := .doNothing }.submit t)
  | act (now : Duration) (time : c.acts now) (idle : x.busy = false) : Chore c x (x.update now)
  | drop {a : Answer Task} {answers : List (Answer Task)} (answered : x.answers.Perm (a :: answers))
      (own : a.task.isFastSync = true) : Chore c x { x with answers }
  | leave (committed : ℕ) (timestamp : Option ℕ) (ends : c.leaves) :
      Chore c x (x.catchUp committed timestamp)
  | exit : Chore c x { x with pipeline := x.pipeline.exit }
  | stop : Chore c x { x with pipeline := x.pipeline.stop }
  /-- The queue of transactions and the faults to come. -/
  | supply (queue : TxQueue) (failBuilds failLoads : ℕ) :
      Chore c x (x.modifyEngine ({ · with queue, failBuilds, failLoads }))

abbrev Chores (c : Scope) (x y : Executor n) : Prop := Relation.ReflTransGen (Chore c) x y

variable {c : Scope}

/-- What every chore preserves holds later too. -/
theorem Chores.invariant {P : Executor n → Prop} (h : Chores c x y)
    (hchore : ∀ x y, Chore c x y → P x → P y) (hx : P x) : P y := by
  induction h with
  | refl => exact hx
  | tail _ hbc ih => exact hchore _ _ hbc ih

lemma effects_catchUp (x : Executor n) (committed : ℕ) (timestamp : Option ℕ) :
    (x.catchUp committed timestamp).effects = x.effects := by
  simp only [catchUp]
  split <;> rfl

lemma Turns.effects (h : Turns x now y) :
    y.effects = x.effects ∨ y.effects = .note .noBlockToCommit :: x.effects := by
  cases h with
  | missing => exact .inr rfl
  | _ => exact .inl rfl

lemma Chore.effects (h : Chore c x y) :
    y.effects = x.effects ∨ ∃ e, c.allows e ∧ y.effects = e :: x.effects := by
  cases h with
  | say e allowed => exact .inr ⟨e, allowed, rfl⟩
  | act now time idle =>
    exact (turns_update idle now).effects.imp id fun hnoted => ⟨_, c.log _ rfl, hnoted⟩
  | leave => exact .inl (effects_catchUp _ _ _)
  | _ => exact .inl rfl

/-- Nothing is said but what may be. -/
theorem Chores.effects (h : Chores c x y) :
    ∃ es, y.effects = es ++ x.effects ∧ ∀ e ∈ es, c.allows e := by
  induction h with
  | refl => exact ⟨[], rfl, nofun⟩
  | tail _ hchore ih =>
    obtain ⟨es, hes, hsaid⟩ := ih
    rcases hchore.effects with hsame | ⟨e, he, hnew⟩
    · exact ⟨es, hsame.trans hes, hsaid⟩
    · exact ⟨e :: es, hnew.trans (congrArg _ hes), List.forall_mem_cons.mpr ⟨he, hsaid⟩⟩

/-- What no chore says is not among what they have said. -/
lemma Chores.filterMap_effects {α : Type} {f : Effect → Option α} (h : Chores c x y)
    (hf : ∀ e, c.allows e → f e = none) :
    y.effects.reverse.filterMap f = x.effects.reverse.filterMap f := by
  obtain ⟨es, heffects, hsaid⟩ := h.effects
  have hnone : es.reverse.filterMap f = [] :=
    List.filterMap_eq_nil_iff.mpr fun e he => hf e (hsaid e (List.mem_reverse.mp he))
  rw [heffects, List.reverse_append, List.filterMap_append, hnone, List.append_nil]

lemma chores_note (x : Executor n) (entry : Note) : Chores c x (x.note entry) :=
  .single (.say _ (c.log _ rfl))

lemma chores_setTime (x : Executor n) (now : Duration) : Chores c x (x.setTime now) :=
  .single (.tell (.time now) rfl rfl)

lemma chores_tell {input : Manager.Input} (hplain : input.isPlain = true)
    (hstays : input.climbs = false) {r : Executor n × Bool} (h : x.tell input = .ok r) :
    Chores c x r.1 := by
  obtain ⟨rfl, -⟩ := tell_eq_ok h
  exact .single (.tell input hplain hstays)

lemma chores_ask (x : Executor n) {t : Task} (haside : t.isOperation = false)
    (hother : ∀ sender rid s, t ≠ .verify sender rid s) (hown : t.isFastSync = true → c.fast) :
    Chores c x (x.submit t) :=
  .single (.ask t haside hother hown)

lemma chores_update (x : Executor n) (hacts : c.acts now) : Chores c x (x.update now) := by
  cases hbusy : x.busy with
  | true =>
    rw [update_of_busy hbusy]
  | false => exact .single (.act now hacts hbusy)

lemma chores_pump (x : Executor n) (hacts : c.acts now) : Chores c x (x.pump now) :=
  (chores_setTime x now).trans (chores_update _ hacts)

/-! ### Data from peers -/

lemma chores_take {t : Task} (hblock : (∃ b, t = .load b) ∨ ∃ b height, t = .add b height)
    (hwanted : x.Wants t) : Chores c x (x.operate t) := by
  cases hbusy : x.busy with
  | true =>
    rw [show x.operate t = x from if_pos hbusy]
  | false =>
    rw [operate_of_idle hbusy]
    exact .single (.take t hblock hbusy hwanted)

lemma chores_receiveUnfinished (x : Executor n) (b : Block) :
    Chores c x (x.receiveUnfinished b) := by
  unfold receiveUnfinished
  split
  · rename_i hi
    have hwanted : x.intent = .fetchUnfinishedBlock b.rid := of_decide_eq_true hi
    exact chores_take (.inl ⟨b, rfl⟩) hwanted
  · exact .refl

lemma chores_receiveAtHeight (x : Executor n) (b : SealedBlock) (height : ℕ) :
    Chores c x (x.receiveAtHeight b height) := by
  unfold receiveAtHeight
  split
  · rename_i hi
    have hwanted : x.intent = .fetchBlockAtHeight height := of_decide_eq_true hi
    exact chores_take (.inr ⟨b, height, rfl⟩) hwanted
  · exact .refl

lemma chores_receiveSignature {sender : ℕ} {rid : Rid} {s : Signature} (x : Executor n)
    (hs : c.heard sender rid s) : Chores c x (x.receiveSignature sender rid s) := by
  unfold receiveSignature
  split
  · rename_i hp
    exact .single (.check sender rid s hp hs)
  · exact chores_note x _

/-! ### Results -/

/-- What is kept of a reply when the manager has applied it or turned it down. -/
def keep (x : Executor n) : (t : Task) → t.job.Reply → (applied : Bool) → Executor n
  | .build, (b, _), applied => if applied then x.hold b else x
  | .load b, _, applied => if applied then x.hold b else x
  | .add b _, _, applied => if applied then x.pass b.block else x
  | .commit b _, _, _ => x.pass b
  | _, _, _ => x

lemma keep_eq (x : Executor n) (t : Task) (reply : t.job.Reply) (applied : Bool) :
    ∃ policy blockTime, x.keep t reply applied =
      { x with policy, blockTime, block := t.blockAfter reply applied x.block } ∧
        policy.forceStop = x.policy.forceStop := by
  cases t <;> cases applied <;> exact ⟨_, _, rfl, rfl⟩

lemma keep_busy (x : Executor n) (t : Task) (reply : t.job.Reply) (applied : Bool) (busy : Bool)
    (manager : Manager n) :
    { x with busy, manager }.keep t reply applied =
      { { x with manager }.keep t reply applied with busy } := by
  cases t <;> cases applied <;> rfl

/-- What an answer makes of an executor that it has been taken from. An operation is over with
it. -/
inductive Settles (x : Executor n) (now : Duration) : Answer Task → Executor n → Prop
  | nothing {a : Answer Task} (silent : a.report? = none)
      (spared : ∀ cause, a = ⟨.build, .error cause⟩ → cause = .engine .forceStopped) :
      Settles x now a { x with busy := !a.task.isOperation && x.busy }
  | failed {cause : PipelineError} (own : cause ≠ .engine .forceStopped) :
      Settles x now ⟨.build, .error cause⟩
        { x with busy := false, policy := x.policy.blockFailed now }
  | report {t : Task} {reply : t.job.Reply} {input : Manager.Input}
      (said : t.report? reply = some input) :
      Settles x now ⟨t, .ok reply⟩
        ({ x with
          busy := !t.isOperation && x.busy
          manager := (x.manager.respond input).1 }.keep t reply (x.manager.respond input).2)

lemma chores_release (x : Executor n) (hacts : c.acts now) :
    Chores c { x with busy := false } (x.release now) := by
  unfold release
  simp only
  split
  · exact .single (.wait false)
  · exact chores_update _ hacts

lemma manager_release (x : Executor n) (now : Duration) : (x.release now).manager = x.manager := by
  unfold release
  simp only
  split
  · rfl
  · exact manager_update _ now

/-- Only an answer that tells nothing and is no failed build leaves everything as it was. -/
lemma settles_nothing {t : Task} {result : Except PipelineError t.job.Reply}
    (hsilent : (⟨t, result⟩ : Answer Task).report? = none) (ht : t ≠ .build) :
    Settles x now ⟨t, result⟩ { x with busy := !t.isOperation && x.busy } :=
  .nothing hsilent fun _ h => absurd (congrArg Answer.task h) ht

lemma settles_fail (x : Executor n) (now : Duration) (cause : PipelineError) (t : Task) :
    ∃ z, Settles x now ⟨t, .error cause⟩ z ∧ z.manager = x.manager ∧
      Chores c z { x.fail now cause t with busy := !t.isOperation && x.busy } := by
  cases t with
  | build =>
    by_cases hstopped : cause = .engine .forceStopped
    · refine ⟨_, .nothing rfl fun _ h => by cases h; exact hstopped, rfl, ?_⟩
      simp only [fail, if_pos hstopped]
      exact chores_note _ _
    · refine ⟨_, .failed hstopped, rfl, ?_⟩
      simp only [fail, if_neg hstopped]
      exact chores_note _ _
  | chainHeight | fastAdd => exact ⟨_, settles_nothing rfl (by simp), rfl, .refl⟩
  | _ => exact ⟨_, settles_nothing rfl (by simp), rfl, chores_note _ _⟩

/-- Whether the manager applied the report of an operation decides only what is kept of the
reply. -/
lemma settles_of_tell {t : Task} {reply : t.job.Reply} {input : Manager.Input}
    {r : Executor n × Bool} (hop : t.isOperation = true) (hsaid : t.report? reply = some input)
    (htell : x.tell input = .ok r) :
    Settles x now ⟨t, .ok reply⟩ { r.1.keep t reply r.2 with busy := false } := by
  obtain ⟨rfl, -⟩ := tell_eq_ok htell
  have hsettles : Settles x now ⟨t, .ok reply⟩ _ := .report hsaid
  rwa [hop, keep_busy] at hsettles

/-- The success of an operation, before the operation is over. -/
lemma settles_operation {t : Task} {reply : t.job.Reply} (hop : t.isOperation = true)
    (h : x.succeed now t reply = .ok y) :
    ∃ z, Settles x now ⟨t, .ok reply⟩ z ∧ z.manager = y.manager ∧
      Chores c z { y with busy := false } := by
  cases t with
  | build =>
    obtain ⟨b, s⟩ := reply
    obtain ⟨r, htell, hy⟩ := Manager.exists_of_bind_eq_ok h
    cases hy
    exact ⟨_, settles_of_tell hop rfl htell, rfl, .refl⟩
  | load b =>
    obtain ⟨r, htell, hy⟩ := Manager.exists_of_bind_eq_ok h
    cases hy
    exact ⟨_, settles_of_tell hop rfl htell, rfl, .refl⟩
  | add b height =>
    simp only [succeed] at h
    split at h
    · cases h
    obtain ⟨r, htell, hy⟩ := Manager.exists_of_bind_eq_ok h
    cases hy
    exact ⟨_, settles_of_tell hop rfl htell, rfl, .refl⟩
  | commit b signatures =>
    obtain ⟨r, htell, hy⟩ := Manager.exists_of_bind_eq_ok h
    obtain ⟨rfl, -⟩ := tell_eq_ok htell
    cases hy
    exact ⟨_, .report rfl, rfl, chores_note _ .blockCommitted⟩
  | verify | serveBlock | serveSignature | chainHeight | fastAdd => cases hop

/-- The success of a task that is no operation. -/
lemma settles_service (hall : ∀ e, c.allows e) (hacts : c.acts now) {t : Task}
    {reply : t.job.Reply} (hop : t.isOperation = false) (h : x.succeed now t reply = .ok y) :
    ∃ z₁ z, (z₁ = x ∨ z₁ = x.setTime now) ∧ Settles z₁ now ⟨t, .ok reply⟩ z ∧ Chores c z y := by
  cases t with
  | build | load | add | commit => cases hop
  | verify sender rid s =>
    simp only [succeed] at h
    split at h
    · rename_i hvalid
      obtain ⟨r, htell, hy⟩ := Manager.exists_of_bind_eq_ok h
      obtain ⟨rfl, -⟩ := tell_eq_ok htell
      cases hy
      have hsaid : (Task.verify sender rid s).report? reply =
          some (.commitSignature sender rid s) := if_pos hvalid
      exact ⟨_, _, .inr rfl, .report hsaid, chores_pump _ hacts⟩
    · rename_i hvalid
      cases h
      exact ⟨x, _, .inl rfl, settles_nothing (if_neg hvalid) (by simp), chores_note _ _⟩
  | serveBlock receiver height =>
    simp only [succeed] at h
    split at h <;> cases h
    · exact ⟨x, _, .inl rfl, settles_nothing rfl (by simp), .single (.say _ (hall _))⟩
    · exact ⟨x, _, .inl rfl, settles_nothing rfl (by simp), .refl⟩
  | serveSignature receiver rid =>
    simp only [succeed] at h
    split at h <;> cases h
    · exact ⟨x, _, .inl rfl, settles_nothing rfl (by simp), .single (.say _ (hall _))⟩
    · exact ⟨x, _, .inl rfl, settles_nothing rfl (by simp), .refl⟩
  | chainHeight | fastAdd =>
    cases h
    exact ⟨x, _, .inl rfl, settles_nothing rfl (by simp), .refl⟩

/-- An answer settles what it is about, and chores follow. The manager may be told the time
before. -/
theorem finish_cases (hall : ∀ e, c.allows e) (hacts : c.acts now) {a : Answer Task}
    (h : x.finish now a = .ok y) :
    ∃ z₁ z, (z₁ = x ∨ z₁ = x.setTime now) ∧ Settles z₁ now a z ∧ Chores c z y ∧
      (a.task.isOperation = true → y.manager = z.manager) := by
  obtain ⟨t, result⟩ := a
  by_cases hop : t.isOperation = true
  · simp only [finish, hop, if_true] at h
    cases result with
    | ok reply =>
      obtain ⟨z, hz, hy⟩ := Manager.exists_of_bind_eq_ok h
      cases hy
      obtain ⟨z', hsettles, hmanager, hchores⟩ := settles_operation (c := c) hop hz
      exact ⟨_, z', .inr rfl, hsettles, hchores.trans (chores_release z hacts),
        fun _ => (manager_release z now).trans hmanager.symm⟩
    | error cause =>
      cases h
      obtain ⟨z, hsettles, hmanager, hchores⟩ := settles_fail (c := c) (x.setTime now) now cause t
      rw [hop] at hchores
      obtain ⟨policy, effects, hfail, -⟩ := fail_eq (x.setTime now) now cause t
      refine ⟨_, z, .inr rfl, hsettles, hchores.trans (chores_release _ hacts), fun _ => ?_⟩
      rw [manager_release, hmanager, hfail]
  · have hno : t.isOperation = false := by simpa using hop
    simp only [finish, hno, Bool.false_eq_true, if_false] at h
    cases result with
    | ok reply =>
      obtain ⟨z, hz, hy⟩ := Manager.exists_of_bind_eq_ok h
      cases hy
      obtain ⟨z₁, z', hfirst, hsettles, hchores⟩ := settles_service hall hacts hno hz
      exact ⟨z₁, z', hfirst, hsettles, hchores, fun hyes => absurd hyes hop⟩
    | error cause =>
      cases h
      obtain ⟨z, hsettles, -, hchores⟩ := settles_fail (c := c) x now cause t
      obtain ⟨policy, effects, hfail, -⟩ := fail_eq x now cause t
      rw [hno, hfail] at hchores
      rw [hfail]
      exact ⟨x, z, .inl rfl, hsettles, hchores, fun hyes => absurd hyes hop⟩

end Executor

open Executor (Scope Chores chores_note)

/-- Whether a commit signature that comes with a message has been heard. -/
def Message.Heard (heard : ℕ → Rid → Signature → Prop) (sender : ℕ) : Message → Prop
  | .blockSignature rid s => heard sender rid s
  | _ => True

lemma Message.heard_true (sender : ℕ) (message : Message) :
    message.Heard (fun _ _ _ => True) sender := by
  cases message <;> trivial

/-! ### Messages -/

namespace Validator

variable {v v' w : Validator n} {c : Scope} {now : Duration}

/-- From `v` to `v'` the last inquiry stays the same, under the same settings. -/
structure SameInquiry (v v' : Validator n) : Prop where
  lastRequest : v'.lastRequest = v.lastRequest
  sync : v'.sync = v.sync

lemma SameInquiry.trans (h : SameInquiry v v') (h' : SameInquiry v' w) : SameInquiry v w :=
  ⟨h'.lastRequest.trans h.lastRequest, h'.sync.trans h.sync⟩

/-- From `v` to `v'` the executor did its chores, and nobody was asked for the intent's sake. -/
structure Works (c : Scope) (v v' : Validator n) : Prop extends SameInquiry v v' where
  chores : Chores c v.toExecutor v'.toExecutor

lemma Works.trans (h : Works c v v') (h' : Works c v' w) : Works c v w :=
  ⟨h.toSameInquiry.trans h'.toSameInquiry, h.chores.trans h'.chores⟩

lemma works_emit (v : Validator n) {e : Effect} (he : c.allows e) : Works c v (v.emit e) :=
  ⟨⟨rfl, rfl⟩, .single (.say e he)⟩

lemma works_note (v : Validator n) (entry : Note) : Works c v (v.note entry) :=
  works_emit v (c.log _ rfl)

lemma works_count (v : Validator n) {counter : Counter} (h : counter ≠ .fastSyncedBlock) :
    Works c v (v.emit (.count counter)) :=
  works_emit v (c.log _ (decide_eq_true h))

lemma works_checkFastSync (v : Validator n) : Works c v v.checkFastSync := by
  unfold checkFastSync
  simp only
  split
  · exact ⟨⟨rfl, rfl⟩, .refl⟩
  · split
    · have hcount : Works c v (v.emit (.count .fastSync)) := works_count v (by simp)
      exact ⟨⟨rfl, rfl⟩, (hcount.trans (works_note _ .switchedToFastSync)).chores⟩
    · exact ⟨⟨rfl, rfl⟩, .refl⟩

lemma works_serveUnfinished (v : Validator n) (receiver : ℕ) (rid : Rid)
    (hgive : ∀ b, c.allows (.send (some receiver) (.unfinishedBlock b))) :
    Works c v (v.serveUnfinished receiver rid) := by
  unfold serveUnfinished
  split
  · split
    · exact works_emit v (hgive _)
    · exact works_note v _
  · exact works_note v _

lemma works_serveSignature (v : Validator n) (receiver : ℕ) (rid : Rid)
    (hsign : ∀ s, c.allows (.send (some receiver) (.blockSignature rid s))) :
    Works c v (v.serveSignature receiver rid) := by
  unfold serveSignature
  split
  · exact works_emit v (hsign _)
  · exact ⟨⟨rfl, rfl⟩, Executor.chores_ask _ rfl (by simp) nofun⟩

/-- A message is taken up without an intent being acted on. The sender may get a block or a
signature at once. -/
lemma works_receive {sender : ℕ} {message : Message} (hm : message.Heard c.heard sender)
    (hgive : ∀ b, c.allows (.send (some sender) (.unfinishedBlock b)))
    (hsign : ∀ rid, message = .getBlockSignature rid → ∀ s,
      c.allows (.send (some sender) (.blockSignature rid s)))
    (h : v.receive now sender message = .ok v') : Works c v v' := by
  cases message with
  | status s =>
    obtain ⟨r, htell, hv⟩ := Manager.exists_of_bind_eq_ok h
    cases hv
    have htold : Works c v { v with toExecutor := r.1 } :=
      ⟨⟨rfl, rfl⟩, (Executor.chores_setTime _ now).trans (Executor.chores_tell rfl rfl htell)⟩
    exact htold.trans (works_checkFastSync _)
  | getUnfinishedBlock rid =>
    cases h
    exact works_serveUnfinished v sender rid hgive
  | unfinishedBlock b =>
    cases h
    exact ⟨⟨rfl, rfl⟩, Executor.chores_receiveUnfinished _ b⟩
  | getBlockAtHeight height =>
    cases h
    exact ⟨⟨rfl, rfl⟩, Executor.chores_ask _ rfl (by simp) nofun⟩
  | completeBlock b height =>
    cases h
    exact ⟨⟨rfl, rfl⟩, Executor.chores_receiveAtHeight _ b height⟩
  | getBlockSignature rid =>
    cases h
    exact works_serveSignature v sender rid (hsign rid rfl)
  | blockSignature rid s =>
    cases h
    exact ⟨⟨rfl, rfl⟩, Executor.chores_receiveSignature _ hm⟩

lemma works_handleMessage {sender : ℕ} {message : Message} (hm : message.Heard c.heard sender)
    (hgive : ∀ b, c.allows (.send (some sender) (.unfinishedBlock b)))
    (hsign : ∀ rid, message = .getBlockSignature rid → ∀ s,
      c.allows (.send (some sender) (.blockSignature rid s)))
    (h : v.handleMessage now sender message = .ok v') : Works c v v' := by
  have hcount : Works c v (v.emit (.count (.received message.kind))) :=
    works_count v (by simp)
  unfold handleMessage at h
  simp only at h
  split at h
  · exact hcount.trans (works_receive hm hgive hsign h)
  · cases h
    exact (hcount.trans (works_count _ (by simp))).trans (works_note _ _)

/-! ### Periodic work -/

lemma works_watchPrimary (h : v.watchPrimary now = .ok v') : Works c v v' := by
  have hdue : Chores c v.toExecutor (v.toExecutor.shouldBuild now).2 := .single (.weigh now)
  unfold watchPrimary at h
  generalize v.toExecutor.shouldBuild now = r at hdue h
  obtain ⟨due, x⟩ := r
  obtain ⟨⟨tracker, manager, revolted⟩, hupdate, hv⟩ := Manager.exists_of_bind_eq_ok h
  obtain ⟨-, -, rfl⟩ := RevoltTracker.of_update_eq_ok hupdate
  have htime := hdue.trans (Executor.chores_setTime x now)
  simp only at hv
  cases revolted with
  | true =>
    cases hv
    exact ⟨⟨rfl, rfl⟩, (htime.tail (.tell .revolt rfl rfl)).tail (.say _ (c.log _ rfl))⟩
  | false =>
    cases hv
    exact ⟨⟨rfl, rfl⟩, htime⟩

section Requests

variable (hask : ∀ e : Effect, e.signs? = none → c.allows e)

include hask

lemma chores_askOne (v : Validator n) (p : NodeStatus → Bool) {message : Message} (entry : Note)
    (hm : ∀ receiver, (Effect.send receiver message).signs? = none) :
    Chores c v.toExecutor (v.askOne p message entry).2.toExecutor := by
  unfold askOne randomPeer
  simp only
  generalize v.random.choose _ = r
  obtain ⟨peer, random⟩ := r
  cases peer with
  | none => exact .refl
  | some peer => exact (chores_note _ _).tail (.say _ (hask _ (hm _)))

lemma chores_askAll (v : Validator n) (rid : Rid) (nodes : List ℕ) :
    Chores c v.toExecutor
      (nodes.foldl (fun v node => v.send node (.getBlockSignature rid)) v).toExecutor := by
  induction nodes generalizing v with
  | nil => exact .refl
  | cons node nodes ih =>
    have hsend : Chores c v.toExecutor (v.send node (.getBlockSignature rid)).toExecutor :=
      .single (.say _ (hask _ rfl))
    exact hsend.trans (ih _)

lemma chores_request (v : Validator n) (intent : Intent) (now : Duration) :
    Chores c v.toExecutor (v.request intent now).toExecutor := by
  have hchores : Chores c v.toExecutor (v.ask intent).2.toExecutor := by
    cases intent with
    | fetchUnfinishedBlock rid => exact chores_askOne hask v _ _ fun _ => rfl
    | fetchBlockAtHeight height => exact chores_askOne hask v _ _ fun _ => rfl
    | fetchCommitSignatures rid nodes => exact chores_askAll hask v rid nodes
    | doNothing | commitBlock | buildBlock => exact .refl
  unfold request
  split
  · generalize v.ask intent = r at hchores
    obtain ⟨asked, w⟩ := r
    cases asked <;> exact hchores
  · exact .refl

lemma chores_announce (v : Validator n) (now : Duration) :
    Chores c v.toExecutor (v.announce now).toExecutor := by
  unfold announce
  split
  · exact .single (.say _ (hask _ rfl))
  · exact .refl

lemma chores_tick (hacts : c.acts now) {r : Validator n × Intent} (h : v.tick now = .ok r) :
    Chores c v.toExecutor r.1.toExecutor := by
  obtain ⟨w, hwatch, hr⟩ := Manager.exists_of_bind_eq_ok h
  cases hr
  have hpump : Chores c v.toExecutor (w.act (·.pump now)).toExecutor :=
    (works_watchPrimary hwatch).chores.trans (Executor.chores_pump _ hacts)
  exact (hpump.trans (chores_request hask (w.act (·.pump now)) _ now)).trans
    (chores_announce hask _ now)

end Requests

end Validator

end Conclave

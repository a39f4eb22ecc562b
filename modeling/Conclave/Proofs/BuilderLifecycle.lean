import Conclave.Ledger.Engine
import Conclave.Proofs.WatchedEngine
import Mathlib.Data.List.Nodup

/-!
# The life of a builder

A pipeline keeps at most one builder and gets rid of every one in exactly one way: by a commit, or
by a rollback, which is the engine's own when a commit fails. A builder that is abandoned is rolled
back right after the engine took its transactions back. A stopped pipeline asks for nothing new;
when its worker leaves, it gives up the pending builder and closes the engine, once.
-/

namespace Conclave

/-! ### The calls of a worker -/

/-- Where a worker is with its engine. -/
inductive WorkerStage where
  | idle
  | building (builder : ℕ)
  /-- The transactions of the builder were taken back. -/
  | abandoning (builder : ℕ)
  | closed
deriving DecidableEq

namespace WorkerStage

def pending : WorkerStage → List ℕ
  | building b | abandoning b => [b]
  | idle | closed => []

/-- Between two jobs there is a pending builder or there is none. -/
def between : Option ℕ → WorkerStage
  | none => idle
  | some b => building b

lemma length_pending_le (s : WorkerStage) : s.pending.length ≤ 1 := by
  cases s <;> simp [pending]

lemma between_ne_closed (builder : Option ℕ) : between builder ≠ closed := by
  cases builder <;> nofun

lemma pending_between (builder : Option ℕ) : (between builder).pending = builder.toList := by
  cases builder <;> rfl

end WorkerStage

namespace Call

/-- The builders that are neither committed nor rolled back. -/
def live (calls : List Call) : List ℕ :=
  (handedOut calls).filter fun b => b ∉ committed calls ++ rolledBack calls

/-- What became of all builders, when those of `pending` are still there. -/
structure Balances (calls : List Call) (pending : List ℕ) : Prop where
  /-- At no time is there more than one live builder. -/
  alone : ∀ past, past <:+ calls → (live past).length ≤ 1
  distinct : (handedOut calls).Nodup
  /-- Every builder is committed, rolled back or pending, one of these, and once. -/
  settled : (committed calls ++ rolledBack calls ++ pending).Perm (handedOut calls)
  /-- A worker rolls back the live builder, right after its transactions were taken back. -/
  retried : ∀ b past, rollback b :: past <:+ calls →
    ∃ earlier, past = retryTaken :: earlier ∧ live earlier = [b]

/-- The calls of a worker, newest first, and where they lead. -/
inductive Leads : List Call → WorkerStage → Prop
  | start : Leads [] .idle
  | failed {calls : List Call} (h : Leads calls .idle) : Leads (make none :: calls) .idle
  | made {calls : List Call} (h : Leads calls .idle) :
      Leads (make (some (handedOut calls).length) :: calls) (.building (handedOut calls).length)
  | commit {calls : List Call} {b : ℕ} (h : Leads calls (.building b)) (ok : Bool) :
      Leads (commit b ok :: calls) .idle
  | retryTaken {calls : List Call} {b : ℕ} (h : Leads calls (.building b)) :
      Leads (retryTaken :: calls) (.abandoning b)
  | rollback {calls : List Call} {b : ℕ} (h : Leads calls (.abandoning b)) :
      Leads (rollback b :: calls) .idle
  | close {calls : List Call} (h : Leads calls .idle) : Leads (close :: calls) .closed

namespace Leads

variable {calls past : List Call} {stage : WorkerStage} {b : ℕ}

lemma of_suffix (h : Leads calls stage) (hp : past <:+ calls) : ∃ stage, Leads past stage := by
  obtain ⟨recent, rfl⟩ := hp
  induction recent generalizing stage with
  | nil => exact ⟨stage, h⟩
  | cons c recent ih => cases h <;> exact ih ‹_›

lemma perm (h : Leads calls stage) :
    (committed calls ++ rolledBack calls ++ stage.pending).Perm (handedOut calls) := by
  induction h with
  | start => exact .nil
  | failed h ih | retryTaken h ih | close h ih => exact ih
  | @made calls h ih =>
    rw [WorkerStage.pending, List.append_nil] at ih
    exact (List.perm_append_singleton _ _).trans (ih.cons _)
  | @commit calls b h ok ih =>
    have hended : (b :: (committed calls ++ rolledBack calls)).Perm (handedOut calls) :=
      (List.perm_append_singleton b _).symm.trans ih
    rw [WorkerStage.pending, List.append_nil]
    cases ok with
    | true => exact hended
    | false => exact List.perm_middle.trans hended
  | @rollback calls b h ih =>
    rw [WorkerStage.pending, List.append_nil]
    exact List.perm_middle.trans ((List.perm_append_singleton b _).symm.trans ih)

lemma handedOut_eq (h : Leads calls stage) :
    handedOut calls = (List.range (handedOut calls).length).reverse := by
  induction h with
  | start => rfl
  | @made calls h ih =>
    have hmade : handedOut (make (some (handedOut calls).length) :: calls) =
      (handedOut calls).length :: handedOut calls := rfl
    rw [hmade, List.length_cons, List.range_succ, List.reverse_concat, ← ih]
  | failed h ih | retryTaken h ih | close h ih | commit h ok ih | rollback h ih => exact ih

lemma nodup (h : Leads calls stage) : (handedOut calls).Nodup := by
  rw [h.handedOut_eq]
  exact List.nodup_reverse.mpr List.nodup_range

lemma live_eq (h : Leads calls stage) : live calls = stage.pending := by
  have hnodup := h.perm.nodup_iff.mpr h.nodup
  obtain ⟨-, -, hdisjoint⟩ := List.nodup_append.mp hnodup
  have hperm := h.perm.filter fun b => b ∉ committed calls ++ rolledBack calls
  have hended : (committed calls ++ rolledBack calls).filter
      (fun b => b ∉ committed calls ++ rolledBack calls) = [] :=
    List.filter_eq_nil_iff.mpr fun b hb => by simp [List.mem_append.mp hb]
  have hpending : stage.pending.filter
      (fun b => b ∉ committed calls ++ rolledBack calls) = stage.pending :=
    List.filter_eq_self.mpr fun b hb => by
      simpa using fun hmem => hdisjoint b (List.mem_append.mpr hmem) b hb rfl
  rw [List.filter_append, hended, hpending, List.nil_append] at hperm
  cases stage with
  | idle | closed => exact List.nil_perm.mp hperm
  | building b | abandoning b => exact (List.singleton_perm.mp hperm).symm

lemma count_close (h : Leads calls stage) :
    calls.count Call.close = if stage = .closed then 1 else 0 := by
  induction h with
  | start => rfl
  | failed h ih | made h ih | commit h ok ih | retryTaken h ih | rollback h ih | close h ih =>
    simpa [List.count_cons] using ih

/-- A worker deals with every builder that it gets. -/
theorem balances (h : Leads calls stage) : Balances calls stage.pending where
  alone past hp := by
    obtain ⟨stage, h⟩ := h.of_suffix hp
    rw [h.live_eq]
    exact stage.length_pending_le
  distinct := h.nodup
  settled := h.perm
  retried b past hp := by
    obtain ⟨stage, h⟩ := h.of_suffix hp
    cases h with
    | rollback h =>
      cases h with
      | retryTaken h => exact ⟨_, rfl, h.live_eq⟩

end Leads

end Call

/-! ### Workers -/

variable {E B T : Type} [BlockBuilder B] [BlockEngine E B] [Submission T]

namespace Worker

variable {w : Worker (Watched E) (Numbered B)}

/-- The calls so far lead to the pending builder. -/
def Lawful (w : Worker (Watched E) (Numbered B)) : Prop :=
  Call.Leads w.engine.calls (.between (w.builder.map Numbered.number))

lemma Lawful.abandon (h : w.Lawful) :
    Call.Leads w.abandon.engine.calls .idle ∧ w.abandon.builder = none := by
  obtain ⟨engine, builder⟩ := w
  cases builder with
  | none => exact ⟨h, rfl⟩
  | some b => exact ⟨.rollback (.retryTaken h), rfl⟩

/-- What the engine hands out, if anything, is pending now. -/
def Hands (made : Except EngineError (Numbered B) × Watched E) : Prop :=
  Call.Leads made.2.calls (.between (made.1.toOption.map Numbered.number))

omit [BlockBuilder B] [BlockEngine E B] in
lemma hands_handOut {x : Watched E} (h : Call.Leads x.calls .idle)
    (made : Except EngineError B × E) : Hands (x.handOut made) := by
  rcases made with ⟨cause | builder, engine⟩
  · exact .failed h
  · exact .made h

lemma Lawful.load (h : w.Lawful) (b : Block) : (w.load b).2.Lawful := by
  obtain ⟨hcalls, hnone⟩ := h.abandon
  have hmade : Hands (BlockEngine.load w.abandon.engine b) := hands_handOut hcalls _
  simp only [Worker.load]
  generalize BlockEngine.load w.abandon.engine b = made at hmade ⊢
  rcases made with ⟨cause | builder, engine⟩
  · rw [Lawful, hnone]
    exact hmade
  · exact hmade

lemma Lawful.build (h : w.Lawful) (order : BuildOrder) : (w.build order).2.Lawful := by
  obtain ⟨hcalls, hnone⟩ := h.abandon
  have hmade : Hands (BlockEngine.build w.abandon.engine order) := hands_handOut hcalls _
  simp only [Worker.build]
  generalize BlockEngine.build w.abandon.engine order = made at hmade ⊢
  rcases made with ⟨cause | builder, engine⟩
  · rw [Lawful, hnone]
    exact hmade
  · exact hmade

lemma Lawful.add (h : w.Lawful) (b : SealedBlock) : (w.add b).2.Lawful := by
  obtain ⟨hcalls, hnone⟩ := h.abandon
  have hmade : Hands (BlockEngine.load w.abandon.engine b.block) := hands_handOut hcalls _
  simp only [Worker.add]
  generalize BlockEngine.load w.abandon.engine b.block = made at hmade ⊢
  rcases made with ⟨cause | builder, engine⟩
  · rw [Lawful, hnone]
    exact hmade
  · rw [Lawful, hnone]
    exact .commit hmade _

/-- A bad signature leaves the builder where it is, and a commit is the end of it. -/
lemma Lawful.commit (h : w.Lawful) (signatures : List (Option Signature)) :
    (w.commit signatures).2.Lawful := by
  obtain ⟨engine, builder⟩ := w
  cases builder with
  | none => exact h
  | some b =>
    simp only [Worker.commit, collect_numbered]
    rcases BlockBuilder.collect b.builder (signatures.filterMap id) with ⟨b', cause | ⟨⟩⟩
    · exact h
    · exact .commit h _

omit [BlockEngine E B] in
lemma Lawful.verify (h : w.Lawful) (s : Signature) : (w.verify s).2.Lawful := by
  obtain ⟨engine, builder⟩ := w
  cases builder with
  | none => exact h
  | some b =>
    simp only [Worker.verify, Numbered.applySignature_def]
    cases BlockBuilder.applySignature b.builder s <;> exact h

theorem Lawful.run (h : w.Lawful) (order : BuildOrder) (job : Job) :
    (w.run order job).2.Lawful := by
  cases job with
  | load b => exact h.load b
  | build => exact h.build order
  | add b => exact h.add b
  | commit signatures => exact h.commit signatures
  | verify s => exact h.verify s
  | blockAt | signatureOf | lastHeight => exact h

end Worker

/-! ### Pipelines -/

namespace Pipeline

/-- The calls so far lead to the pending builder, or to the end when the worker has left. Counted
are the queued blocks of the queue. -/
structure Lawful (p : Pipeline (Watched E) (Numbered B) T) : Prop where
  leads : Call.Leads p.worker.engine.calls
    (if p.exited then .closed else .between (p.worker.builder.map Numbered.number))
  left : p.exited = true → p.stopped = true ∧ p.queue = [] ∧ p.worker.builder = none
  counted : p.queuedBlocks = p.queue.countP fun t => (Submission.job t).isAdd

variable {p q : Pipeline (Watched E) (Numbered B) T}

omit [BlockBuilder B] [BlockEngine E B] in
lemma Lawful.worker (h : p.Lawful) (hstays : p.exited = false) : p.worker.Lawful := by
  have hleads := h.leads
  rwa [hstays] at hleads

omit [BlockBuilder B] [BlockEngine E B] in
lemma Lawful.submit (h : p.Lawful) (t : T) : (p.submit t).1.Lawful := by
  unfold Pipeline.submit
  split
  · exact h
  · rename_i hruns
    refine ⟨h.leads, fun hleft => absurd (h.left hleft).1 hruns, ?_⟩
    rw [List.countP_append, List.countP_singleton, ← h.counted]

lemma Lawful.next (h : p.Lawful) {order : BuildOrder} {a : Answer T}
    (hn : p.next order = some (a, q)) : q.Lawful := by
  unfold Pipeline.next at hn
  split at hn
  · cases hn
  rename_i t queue hq
  have hstays : p.exited = false := by
    by_contra hleft
    rw [(h.left (by simpa using hleft)).2.1] at hq
    cases hq
  have hcounted : p.queuedBlocks - (if (Submission.job t).isAdd then 1 else 0) =
      queue.countP fun t => (Submission.job t).isAdd := by
    rw [h.counted, hq, List.countP_cons, Nat.add_sub_cancel]
  simp only at hn
  split at hn
  · cases hn
    exact ⟨h.leads, fun hleft => absurd hleft (by simp [hstays]), hcounted⟩
  · cases hn
    refine ⟨?_, fun hleft => absurd hleft (by simp [hstays]), hcounted⟩
    have hworker := (h.worker hstays).run order (Submission.job t)
    simp only [hstays]
    exact hworker

lemma Lawful.exit (h : p.Lawful) : p.exit.Lawful := by
  unfold Pipeline.exit
  split
  · rename_i hleaves
    obtain ⟨hstopped, hempty, hstays⟩ := hleaves
    obtain ⟨hidle, hnone⟩ := (h.worker (by simpa using hstays)).abandon
    exact ⟨.close hidle, fun _ => ⟨hstopped, List.isEmpty_iff.mp hempty, hnone⟩, h.counted⟩
  · exact h

theorem Lawful.act (h : p.Lawful) (a : Act E T) : (p.act a.watched).2.Lawful := by
  cases a with
  | submit t => exact h.submit t
  | work order =>
    simp only [Act.watched, Pipeline.act]
    split
    · exact h
    · rename_i hn
      exact h.next hn
  | stop => exact ⟨h.leads, fun hleft => ⟨rfl, (h.left hleft).2⟩, h.counted⟩
  | exit => exact h.exit
  | disturb change => exact ⟨h.leads, h.left, h.counted⟩

lemma Lawful.acts (h : p.Lawful) (as : List (Act E T)) :
    (Pipeline.acts (as.map Act.watched) p).2.Lawful := by
  induction as generalizing p with
  | nil => exact h
  | cons a as ih => exact ih (h.act a)

/-! ### Stopped pipelines -/

omit [Submission T] in
lemma stopped_exit (p : Pipeline E B T) : p.exit.stopped = p.stopped := by
  unfold exit
  split <;> rfl

lemma stopped_next {p p' : Pipeline E B T} {order : BuildOrder} {a : Answer T}
    (hn : p.next order = some (a, p')) : p'.stopped = p.stopped := by
  unfold next at hn
  split at hn
  · cases hn
  simp only at hn
  split at hn <;> cases hn <;> rfl

lemma stopped_act (p : Pipeline E B T) (a : Act E T) :
    (p.act a).2.stopped = true ↔ p.stopped = true ∨ .stop = a := by
  cases a with
  | submit t =>
    simp only [act, submit, reduceCtorEq, or_false]
    split <;> rfl
  | work order =>
    simp only [act, reduceCtorEq, or_false]
    split
    · rfl
    · rename_i hn
      rw [stopped_next hn]
  | stop => simp [act, stop]
  | exit => simp [act, stopped_exit]
  | disturb change => simp [act]

/-- Only a stop raises the flag, and nothing lowers it. -/
lemma stopped_acts (as : List (Act E T)) (p : Pipeline E B T) :
    (acts as p).2.stopped = true ↔ p.stopped = true ∨ .stop ∈ as := by
  induction as generalizing p with
  | nil => simp [acts]
  | cons a as ih => simp only [acts, ih, stopped_act, List.mem_cons, or_assoc]

/-- What a stopped worker still asks of its engine. -/
def farewell (p : Pipeline (Watched E) (Numbered B) T) : List Call :=
  .close :: (p.worker.builder.map Numbered.number).toList.flatMap fun b => [.rollback b, .retryTaken]

/-- The worker has left, or everything is as it was for it. -/
structure Closing (p q : Pipeline (Watched E) (Numbered B) T) : Prop where
  stopped : q.stopped = true
  leaves : (q.exited = p.exited ∧ q.worker.builder = p.worker.builder ∧
      q.worker.engine.calls = p.worker.engine.calls) ∨
    (q.exited = true ∧ q.worker.engine.calls = p.farewell ++ p.worker.engine.calls)

lemma next_of_stopped {p : Pipeline E B T} (h : p.stopped = true) {t : T} {queue : List T}
    (hq : p.queue = t :: queue) (order : BuildOrder) :
    p.next order = some (⟨t, .error .closed⟩, { p with
      queue
      queuedBlocks := p.queuedBlocks - if (Submission.job t).isAdd then 1 else 0 }) := by
  unfold next
  rw [hq]
  exact if_pos h

omit [Submission T] in
lemma exit_of_leaving (h : p.stopped ∧ p.queue.isEmpty ∧ ¬p.exited) :
    p.exit.stopped = true ∧ p.exit.exited = true ∧
      p.exit.worker.engine.calls = p.farewell ++ p.worker.engine.calls := by
  obtain ⟨⟨engine, builder⟩, queue, stopped, exited, queuedBlocks⟩ := p
  unfold exit
  rw [if_pos h]
  cases builder <;> exact ⟨h.1, rfl, rfl⟩

omit [Submission T] in
lemma Closing.exit (h : Closing p q) : Closing p q.exit := by
  by_cases hleaves : q.stopped ∧ q.queue.isEmpty ∧ ¬q.exited
  · obtain ⟨hstopped, hexited, hcalls⟩ := exit_of_leaving hleaves
    rcases h.leaves with ⟨-, hbuilder, hsame⟩ | ⟨hleft, -⟩
    · refine ⟨hstopped, .inr ⟨hexited, ?_⟩⟩
      rw [hcalls, hsame, farewell, hbuilder, farewell]
    · exact absurd hleft hleaves.2.2
  · unfold Pipeline.exit
    rwa [if_neg hleaves]

lemma Closing.act (h : Closing p q) (a : Act E T) :
    Closing p (q.act a.watched).2 ∧ ∀ b ∈ (q.act a.watched).1, b.result = .error .closed := by
  cases a with
  | submit t =>
    have hrefused : q.submit t = (q, some ⟨t, .error .closed⟩) := if_pos h.stopped
    simp only [Act.watched, Pipeline.act, hrefused]
    exact ⟨h, by simp⟩
  | work order =>
    simp only [Act.watched, Pipeline.act]
    cases hq : q.queue with
    | nil => simp [next, hq, h]
    | cons t queue =>
      rw [next_of_stopped h.stopped hq]
      exact ⟨⟨h.stopped, h.leaves⟩, by simp⟩
  | stop => exact ⟨⟨rfl, h.leaves⟩, by simp [Act.watched, Pipeline.act]⟩
  | exit => exact ⟨h.exit, by simp [Act.watched, Pipeline.act]⟩
  | disturb change => exact ⟨⟨h.stopped, h.leaves⟩, by simp [Act.watched, Pipeline.act]⟩

lemma Closing.acts (h : Closing p q) (as : List (Act E T)) :
    Closing p (Pipeline.acts (as.map Act.watched) q).2 ∧
      ∀ b ∈ (Pipeline.acts (as.map Act.watched) q).1, b.result = .error .closed := by
  induction as generalizing q with
  | nil => exact ⟨h, by simp [Pipeline.acts]⟩
  | cons a as ih =>
    obtain ⟨hnext, hanswers⟩ := h.act a
    obtain ⟨hlast, hmore⟩ := ih hnext
    exact ⟨hlast, fun b hb => (List.mem_append.mp hb).elim (hanswers b) (hmore b)⟩

/-- A stopped pipeline drops its tasks, and leaves it at that. -/
lemma run_of_stopped {p : Pipeline E B T} (h : p.stopped = true) (order : BuildOrder) :
    run order p.queue.length p = (p.queue.map fun t => ⟨t, .error .closed⟩, { p with
      queue := []
      queuedBlocks := p.queuedBlocks - p.queue.countP fun t => (Submission.job t).isAdd }) := by
  generalize hq : p.queue = queue
  induction queue generalizing p with
  | nil =>
    obtain ⟨worker, queue, stopped, exited, queuedBlocks⟩ := p
    obtain rfl : queue = [] := hq
    rfl
  | cons t queue ih =>
    have hrest := ih (p := { p with
      queue
      queuedBlocks := p.queuedBlocks - if (Submission.job t).isAdd then 1 else 0 }) h rfl
    rw [List.length_cons, run, next_of_stopped h hq]
    simp only [hrest, List.map_cons, List.countP_cons, Nat.sub_sub, Nat.add_comm]

omit [Submission T] in
lemma exited_exit {p : Pipeline E B T} (hstopped : p.stopped = true) (hempty : p.queue = []) :
    p.exit.exited = true := by
  unfold exit
  split
  · rfl
  · rename_i hstays
    by_contra hleft
    exact hstays ⟨hstopped, by simp [hempty], hleft⟩

/-! ### Every engine, every run -/

/-- This holds for every engine, whatever it does, fails at and goes through on the side, and for
whatever is submitted before a stop and after it. Watching the engine changes nothing. At no time is
there more than one live builder, and every one of them is committed, rolled back or pending, one of
these, and once. An abandoned one is rolled back right after its transactions were taken back. The
engine is closed once, when the worker leaves, and then no builder is pending. Counted are the
fetched blocks that wait in the queue. From the first stop on the pipeline is stopped: all answers
are that it is closed, nothing but the farewell is asked of the engine, and the tasks that wait are
dropped. -/
theorem builders_are_accounted_for (engine : E) (as : List (Act E T)) :
    let start : Pipeline (Watched E) (Numbered B) T := { worker.engine := { engine } }
    let played := acts (as.map Act.watched) start
    let p := played.2
    let calls := p.worker.engine.calls
    let pending := (p.worker.builder.map Numbered.number).toList
    acts as { worker.engine := engine } = (played.1, p.unwatched) ∧
      Call.Balances calls pending ∧ calls.count .close = p.exited.toNat ∧
      (p.exited = true → p.worker.builder = none) ∧
      p.queuedBlocks = p.queue.countP (fun t => (Submission.job t).isAdd) ∧
      (p.stopped = true ↔ .stop ∈ as) ∧
      (p.stopped = true →
        (∀ later : List (Act E T), let after := acts (later.map Act.watched) p
          (∀ a ∈ after.1, a.result = .error .closed) ∧
            (after.2.worker.engine.calls = calls ∨
              after.2.worker.engine.calls = p.farewell ++ calls)) ∧
        ∀ order, let drained := { p with queue := [], queuedBlocks := 0 }
          run order p.queue.length p = (p.queue.map fun t => ⟨t, .error .closed⟩, drained) ∧
            drained.exit.exited = true) := by
  intro start played p calls pending
  have hstart : start.Lawful := ⟨.start, nofun, rfl⟩
  have h : p.Lawful := hstart.acts as
  refine ⟨?unnoticed, ?balances, ?closed, fun hleft => (h.left hleft).2.2, h.counted, ?stops,
    fun hstopped => ⟨fun later => ?later, fun order => ?drained⟩⟩
  case unnoticed => exact unwatched_acts as start
  case balances =>
    have hbalances := h.leads.balances
    split at hbalances
    · rename_i hleft
      have hnone : pending = [] := by simp [pending, (h.left hleft).2.2]
      rw [hnone]
      exact hbalances
    · rwa [WorkerStage.pending_between] at hbalances
  case closed =>
    rw [h.leads.count_close]
    cases p.exited with
    | true => rfl
    | false => exact if_neg (WorkerStage.between_ne_closed _)
  case stops =>
    have hunwatched : (acts as start.unwatched).2.stopped = p.stopped :=
      congrArg (·.2.stopped) (unwatched_acts as start)
    rw [← hunwatched, stopped_acts]
    exact or_iff_right nofun
  case later =>
    have hclosing : Closing p p := ⟨hstopped, .inl ⟨rfl, rfl, rfl⟩⟩
    obtain ⟨hlast, hanswers⟩ := hclosing.acts later
    exact ⟨hanswers, hlast.leaves.imp (·.2.2) (·.2)⟩
  case drained =>
    refine ⟨by rw [run_of_stopped hstopped, h.counted, Nat.sub_self], ?_⟩
    exact exited_exit hstopped rfl

section Example

/-- A block is built, a fetched one waits, and the pipeline is stopped. -/
def exampleActs : List (Act (Engine 4) Job) :=
  let order : BuildOrder := ⟨10, fun _ => false, 5000⟩
  [.submit .build, .work order, .submit (.add default), .stop, .work order, .exit]

/-- The builder is given up and the fetched block is dropped. The pipeline stays closed. -/
theorem builders_are_accounted_for_stopped :
    let start : Pipeline (Watched (Engine 4)) (Numbered (Builder 4)) Job :=
      { worker.engine := { engine := { me := 0, keys := .ofSeed 4 0 } } }
    let p := (acts (exampleActs.map Act.watched) start).2
    p.worker.engine.calls = [.close, .rollback 0, .retryTaken, .make (some 0)] ∧
      p.worker.builder = none ∧ p.queuedBlocks = 0 ∧
      ∀ later : List (Act (Engine 4) Job), let after := acts (later.map Act.watched) p
        ∀ a ∈ after.1, a.result = .error .closed := by
  intro start p
  have hcalls : p.worker.engine.calls = [.close, .rollback 0, .retryTaken, .make (some 0)] := by
    decide +kernel
  have hleft : p.exited = true := by decide +kernel
  have hqueue : p.queue.length = 0 := by decide +kernel
  obtain ⟨-, -, -, hnone, hcounted, hstops, hafter⟩ :=
    builders_are_accounted_for { me := 0, keys := .ofSeed 4 0 : Engine 4 } exampleActs
  have hstopped : p.stopped = true := hstops.mpr (by simp [exampleActs])
  rw [List.length_eq_zero_iff.mp hqueue] at hcounted
  exact ⟨hcalls, hnone hleft, hcounted, fun later => ((hafter hstopped).1 later).1⟩

end Example

end Pipeline

end Conclave

import Conclave.Proofs.LoopChores

/-!
# The pulses of an executor

All that happens to a validator, fast sync included, changes its executor in a few ways only: by
pulses, and by the work of its pipeline in between. A chore is some pulses, and so is the answer
that is applied. What both preserve holds along every run, whatever the peers say and whenever tasks
are done.
-/

namespace Conclave

variable {n : ℕ}

namespace Executor

variable {x y : Executor n} {heard : ℕ → Rid → Signature → Prop} {fast : Prop}

/-- What an answer makes of the manager and of the block at hand. -/
inductive Tells (x : Executor n) : Answer Task → Manager n → Option Block → Prop
  | nothing {a : Answer Task} (silent : a.report? = none) : Tells x a x.manager x.block
  | report {t : Task} {reply : t.job.Reply} {input : Manager.Input}
      (said : t.report? reply = some input) :
      Tells x ⟨t, .ok reply⟩ (x.manager.respond input).1
        (t.blockAfter reply (x.manager.respond input).2 x.block)

/-- One change of an executor that is not the work of its pipeline; `heard` are the commit
signatures that peers have sent, and `fast` says whether a fast sync may be under way. -/
inductive Pulse (heard : ℕ → Rid → Signature → Prop) (fast : Prop) (x : Executor n) :
    Executor n → Prop
  /-- Its books. -/
  | books {policy : BuildPolicy} {previous : Intent} {blockTime : Option Duration} {awaited : Bool}
      {effects : List Effect} :
      Pulse heard fast x { x with policy, previous, blockTime, awaited, effects }
  | rest : Pulse heard fast x { x with intent := .doNothing }
  /-- The manager's intent becomes its own, unless it calls for an operation at once. -/
  | follow (idle : x.busy = false) (build : x.manager.intent ≠ .buildBlock)
      (commit : x.manager.intent ≠ .commitBlock) :
      Pulse heard fast x { x with intent := x.manager.intent }
  | tell (input : Manager.Input) (plain : input.isPlain = true) (stays : input.climbs = false) :
      Pulse heard fast x { x with manager := (x.manager.respond input).1 }
  /-- A task that is no operation. -/
  | ask (t : Task) (aside : t.isOperation = false)
      (other : ∀ sender rid s, t ≠ .verify sender rid s) (own : t.isFastSync = true → fast) :
      Pulse heard fast x (x.submit t)
  | check (sender : ℕ) (rid : Rid) (s : Signature) (prepared : x.manager.PreparedOn rid)
      (sent : heard sender rid s) : Pulse heard fast x (x.submit (.verify sender rid s))
  | operate (t : Task) (operation : t.isOperation = true) (idle : x.busy = false)
      (wanted : x.Wants t) :
      Pulse heard fast x ({ x with busy := true, intent := .doNothing }.submit t)
  | exit : Pulse heard fast x { x with pipeline := x.pipeline.exit }
  | stop : Pulse heard fast x { x with pipeline := x.pipeline.stop }
  /-- The queue of transactions and the faults to come. -/
  | supply (queue : TxQueue) (failBuilds failLoads : ℕ) :
      Pulse heard fast x (x.modifyEngine ({ · with queue, failBuilds, failLoads }))
  /-- An answer is applied; an operation is over with it. -/
  | conclude {a : Answer Task} {answers : List (Answer Task)} {manager : Manager n}
      {block : Option Block} (answered : x.answers.Perm (a :: answers))
      (told : x.Tells a manager block) :
      Pulse heard fast x { x with manager, answers, block, busy := !a.task.isOperation && x.busy }
  /-- The manager catches up with what a fast sync has added. -/
  | leave (committed : ℕ) (during : fast) :
      Pulse heard fast x
        { x with
          manager := (x.manager.respond (.fastForward committed)).1
          block := x.blockAfterSync committed }

/-- `y` comes after `x`, and the pipeline has not worked in between. -/
abbrev Pulses (heard : ℕ → Rid → Signature → Prop) (fast : Prop) (x y : Executor n) : Prop :=
  Relation.ReflTransGen (Pulse heard fast) x y

/-- What every pulse preserves holds later too. -/
theorem Pulses.invariant {P : Executor n → Prop} (h : Pulses heard fast x y)
    (hpulse : ∀ x y, Pulse heard fast x y → P x → P y) (hx : P x) : P y := by
  induction h with
  | refl => exact hx
  | tail _ hbc ih => exact hpulse _ _ hbc ih

lemma pulses_books {policy : BuildPolicy} {previous : Intent} {blockTime : Option Duration}
    {awaited : Bool} {effects : List Effect} :
    Pulses heard fast x { x with policy, previous, blockTime, awaited, effects } :=
  .single .books

/-! ### Chores -/

/-- Any chores at all, with these signatures from peers. -/
def Scope.free (heard : ℕ → Rid → Signature → Prop) (fast : Prop) : Scope where
  allows _ := True
  log _ _ := trivial
  acts _ := True
  heard
  fast
  leaves := fast

/-- An idle executor turns to an intent with its books, and then hands out the task that this
takes. -/
lemma Turns.pulses {now : Duration} (hidle : x.busy = false) (h : Turns x now y) :
    Pulses heard fast x y := by
  have hturned : ∀ policy, Pulses heard fast x (x.turned policy) := fun policy => by
    have hbooks : Pulses heard fast x { x with policy, previous := x.manager.intent } :=
      pulses_books
    exact hbooks.tail .rest
  cases h with
  | follow build commit =>
    have hbooks : Pulses heard fast x { x with
        policy := x.policyAside
        previous := x.manager.intent } := pulses_books
    exact hbooks.tail (.follow hidle build commit)
  | commit intent held =>
    exact (hturned _).tail (.operate (.commit _ _) rfl hidle ⟨intent, held, rfl⟩)
  | missing => exact (hturned _).trans pulses_books
  | pause => exact hturned _
  | rest => exact (hturned _).trans pulses_books
  | build intent =>
    have hdue : Pulses heard fast x
        ((x.turned (x.policy.setForceStop false)).shouldBuild now).2 :=
      (hturned _).trans pulses_books
    exact hdue.tail (.operate .build rfl hidle intent)

lemma Chore.pulses (h : Chore (.free heard fast) x y) : Pulses heard fast x y := by
  cases h with
  | say | weigh | wait => exact pulses_books
  | tell input plain stays => exact .single (.tell input plain stays)
  | ask t aside other own => exact .single (.ask t aside other own)
  | check sender rid s prepared sent => exact .single (.check sender rid s prepared sent)
  | take t block idle wanted =>
    refine .single (.operate t ?_ idle wanted)
    rcases block with ⟨b, rfl⟩ | ⟨b, height, rfl⟩ <;> rfl
  | act now _ idle => exact (turns_update idle now).pulses idle
  | @drop a answers answered own =>
    have hdrop : Pulses heard fast x _ :=
      .single (.conclude answered (.nothing (Answer.report_of_isFastSync own)))
    rwa [Task.aside_of_isFastSync own] at hdrop
  | leave committed timestamp ends =>
    have hleft : Pulses heard fast x _ := .single (.leave committed ends)
    simp only [blockAfterSync] at hleft
    simp only [catchUp]
    split
    · rename_i hgrown
      rw [if_pos hgrown] at hleft
      exact hleft.trans pulses_books
    · rename_i hsame
      rw [if_neg hsame] at hleft
      exact hleft
  | exit => exact .single .exit
  | stop => exact .single .stop
  | supply queue failBuilds failLoads => exact .single (.supply queue failBuilds failLoads)

lemma Chores.pulses (h : Chores (.free heard fast) x y) : Pulses heard fast x y :=
  h.invariant (P := Pulses heard fast x) (fun _ _ hchore hx => hx.trans hchore.pulses) .refl

/-! ### Results -/

section Answers

variable {a : Answer Task} {answers : List (Answer Task)} {now : Duration}

lemma Settles.pulses (hperm : x.answers.Perm (a :: answers))
    (h : Settles { x with answers } now a y) : Pulses heard fast x y := by
  cases h with
  | nothing silent => exact .single (.conclude hperm (.nothing silent))
  | failed =>
    have hdrop : Pulses heard fast x _ := .single (.conclude hperm (.nothing rfl))
    exact hdrop.trans pulses_books
  | @report t reply input said =>
    have hreport : Pulses heard fast x _ := .single (.conclude hperm (.report said))
    obtain ⟨policy, blockTime, hkeep, -⟩ := keep_eq
      { x with
        answers
        busy := !t.isOperation && x.busy
        manager := (x.manager.respond input).1 } t reply (x.manager.respond input).2
    rw [hkeep]
    exact hreport.trans pulses_books

theorem pulses_finish (hperm : x.answers.Perm (a :: answers))
    (h : ({ x with answers } : Executor n).finish now a = .ok y) : Pulses heard fast x y := by
  obtain ⟨z₁, z, hfirst, hsettles, hchores, -⟩ :=
    finish_cases (c := .free heard fast) (fun _ => trivial) trivial h
  refine .trans ?_ hchores.pulses
  rcases hfirst with rfl | rfl
  · exact hsettles.pulses hperm
  · have htime : Pulses heard fast x (x.setTime now) := .single (.tell (.time now) rfl rfl)
    exact htime.trans (hsettles.pulses (x := x.setTime now) hperm)

end Answers

/-! ### Happenings -/

/-- What a happening makes of an executor: a few pulses, or a job done by its pipeline. -/
inductive Stirs (heard : ℕ → Rid → Signature → Prop) (fast : Prop) (x : Executor n) :
    Executor n → Prop
  | pulses {y : Executor n} (pulses : Pulses heard fast x y) : Stirs heard fast x y
  | work {order : BuildOrder} {a : Answer Task} {p : Pipeline (Engine n) (Builder n) Task}
      {effects : List Effect} (next : x.pipeline.next order = some (a, p)) :
      Stirs heard fast x { x with pipeline := p, answers := x.answers ++ [a], effects }

/-- What was sent before does not matter. -/
lemma Stirs.of_quiet {effects : List Effect} (h : Stirs heard fast { x with effects } y) :
    Stirs heard fast x y := by
  cases h with
  | pulses h => exact .pulses (pulses_books.trans h)
  | work next => exact .work next

end Executor

namespace Runner

open Executor (Stirs)

variable {r r' : Runner n} {heard : ℕ → Rid → Signature → Prop} {fast : Prop} {e : Happening}

lemma stirs_step (hin : r.Attentive heard)
    (he : ∀ sender rid s, e.signature? = some (sender, rid, s) → heard sender rid s)
    (hfast : r.inConsensus = false → fast) (h : r.step e = .ok r') :
    Stirs heard fast r.toExecutor r'.toExecutor ∧ r'.Attentive heard := by
  have hsteps : Steps (.free heard fast) r e r' :=
    steps_of_step (fun _ => trivial) (fun _ _ => trivial) hin he hfast
      (fun _ _ _ _ _ hstage => hfast (by simp [inConsensus, hstage])) h
  refine ⟨?_, hsteps.attentive hin he⟩
  cases hsteps with
  | chores chores => exact .pulses chores.pulses
  | work next => exact .work next
  | finish answered applied =>
    obtain ⟨hlt, rfl⟩ := List.getElem?_eq_some_iff.mp answered
    exact .pulses (Executor.pulses_finish (List.getElem_cons_eraseIdx_perm hlt).symm applied)

lemma stirs_next (hin : r.Attentive heard)
    (he : ∀ sender rid s, e.signature? = some (sender, rid, s) → heard sender rid s)
    (hfast : r.inConsensus = false → fast) :
    Stirs heard fast r.toExecutor (r.next e).toExecutor ∧ (r.next e).Attentive heard := by
  unfold next
  split
  · rename_i r' hstep
    obtain ⟨hstirs, hin'⟩ := stirs_step (r := { r with effects := [] }) hin he hfast hstep
    exact ⟨hstirs.of_quiet, hin'⟩
  · exact ⟨.pulses Executor.pulses_books, hin⟩

/-- Along a run the executor is stirred by one happening after the other. -/
theorem stirs_trail {es : List Happening} (hin : r.Attentive heard)
    (hes : ∀ sender rid s, Heard es sender rid s → heard sender rid s)
    (hfast : ∀ x ∈ r.trail es, x.inConsensus = false → fast) :
    (r.trail es).IsChain fun x y => Stirs heard fast x.toExecutor y.toExecutor := by
  induction es generalizing r with
  | nil => exact List.isChain_singleton r
  | cons e es ih =>
    obtain ⟨hstirs, hin'⟩ := stirs_next hin
      (fun sender rid s he => hes sender rid s ⟨e, List.mem_cons_self, he⟩)
      (hfast r (mem_trail_self r _))
    have hlater := ih hin'
      (fun sender rid s ⟨e', he', hs⟩ => hes sender rid s ⟨e', List.mem_cons_of_mem _ he', hs⟩)
      fun x hx => hfast x (mem_trail_cons.mpr (.inr hx))
    cases es <;> exact List.isChain_cons_cons.mpr ⟨hstirs, hlater⟩

/-- What every happening preserves holds all along a run. -/
theorem stirs_invariant {P : Executor n → Prop} {es : List Happening} (hin : r.Attentive heard)
    (hes : ∀ sender rid s, Heard es sender rid s → heard sender rid s)
    (hfast : ∀ x ∈ r.trail es, x.inConsensus = false → fast)
    (hstir : ∀ x y, Stirs heard fast x y → P x → P y) (hP : P r.toExecutor) :
    ∀ x ∈ r.trail es, P x.toExecutor := by
  apply (stirs_trail hin hes hfast).induction (fun x => P x.toExecutor) _
    fun x y => hstir x.toExecutor y.toExecutor
  intro hne
  cases es <;> exact hP

/-- Nothing has lined up when a loop starts. -/
lemma attentive_start (v : Validator n) (time : Duration) : (start v time).Attentive heard :=
  fun m hm => by cases hm

/-- What every happening preserves holds in a whole run if it holds at the start. -/
theorem start_stirs_invariant {P : Executor n → Prop} {es : List Happening} {v : Validator n}
    {time : Duration} (hfast : ∀ x ∈ (start v time).trail es, x.inConsensus = false → fast)
    (hstir : ∀ x y, Stirs (Heard es) fast x y → P x → P y) (hP : P (start v time).toExecutor) :
    ∀ x ∈ (start v time).trail es, P x.toExecutor :=
  stirs_invariant (attentive_start v time) (fun _ _ _ hs => hs) hfast hstir hP

/-- What the happenings between two moments of a run preserve holds at the later one too. -/
theorem stirs_between {P : Executor n → Prop} {es : List Happening} (hin : r.Attentive heard)
    (hes : ∀ sender rid s, Heard es sender rid s → heard sender rid s)
    (hfast : ∀ x ∈ r.trail es, x.inConsensus = false → fast) {i j : ℕ} (hij : i ≤ j)
    {x y : Runner n} (hx : (r.trail es)[i]? = some x) (hy : (r.trail es)[j]? = some y)
    (hstir : ∀ (k : ℕ) (a b : Runner n), i ≤ k → k < j → (r.trail es)[k]? = some a →
      (r.trail es)[k + 1]? = some b → Stirs heard fast a.toExecutor b.toExecutor →
        P a.toExecutor → P b.toExecutor) (hP : P x.toExecutor) : P y.toExecutor := by
  have hchain := stirs_trail hin hes hfast
  obtain ⟨d, rfl⟩ := Nat.exists_eq_add_of_le hij
  induction d generalizing y with
  | zero =>
    cases hx.symm.trans hy
    exact hP
  | succ d ih =>
    obtain ⟨hlt, rfl⟩ := List.getElem?_eq_some_iff.mp hy
    have hlast := List.getElem?_eq_getElem (Nat.lt_of_succ_lt hlt)
    have hbefore := ih (by omega) hlast fun k a b hik hkd => hstir k a b hik (by omega)
    have hnext := List.isChain_iff_getElem.mp hchain (i + d) hlt
    exact hstir (i + d) _ _ (by omega) (by omega) hlast hy hnext hbefore

end Runner

end Conclave

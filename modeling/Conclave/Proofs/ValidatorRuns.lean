import Conclave.Proofs.ExecutorChores
import Conclave.Runner

/-!
# Runs of one validator

A run is a list of happenings in any order: messages, turns of the loop, ticks, revolts, the work of
the pipeline and its answers. As long as the validator does not fast-sync, its executor stays
aligned.
-/

namespace Conclave

open Executor (Calm Leads Goes Aligned Scope Chore Chores)

variable {n : ℕ}

/-! ### Chores that keep the alignment -/

namespace Executor

variable {x y : Executor n}

lemma calm_stop (x : Executor n) : Calm x { x with pipeline := x.pipeline.stop } :=
  ⟨⟨Manager.gentle_refl _, rfl, fun _ hp => hp⟩, rfl, rfl, rfl, rfl, rfl, rfl⟩

lemma calm_modifyEngine (x : Executor n) (f : Engine n → Engine n)
    (h : (f x.engine).chain = x.engine.chain) : Calm x (x.modifyEngine f) :=
  ⟨⟨Manager.gentle_refl _, h, fun _ hp => hp⟩, rfl, rfl, rfl, rfl, rfl, rfl⟩

/-- Neither a fast sync nor a signature that is sent. -/
def Scope.ordinary : Scope :=
  .without Effect.signs? fun e h => by
    cases e with
    | send => cases h
    | note | count => rfl

lemma Chore.leads (hchore : Chore .ordinary x y) (h : x.Aligned) : Leads x y := by
  cases hchore with
  | say e allowed => exact (calm_books (List.filterMap_cons_none allowed)).leads h
  | tell input plain stays =>
    have hgentle := h.coherent.gentle_respond input stays (Manager.takes_of_isPlain plain)
    exact (calm_manager hgentle).leads h
  | weigh now => exact (calm_shouldBuild x now).leads h
  | wait awaited => exact (calm_books rfl).leads h
  | ask t aside other own =>
    refine h.submit aside fun b heq => own ?_
    rw [heq]
    rfl
  | check => exact h.submit rfl (by simp)
  | take t block idle wanted =>
    rw [← operate_of_idle idle]
    rcases block with ⟨b, rfl⟩ | ⟨b, height, rfl⟩
    · exact h.operate rfl fun _ => (h.asking b.rid wanted).2
    · exact h.operate rfl fun _ => (h.catchingUp height wanted).2
  | act now => exact h.update now
  | drop answered own => exact h.taken (Task.aside_of_isFastSync own) answered
  | leave _ _ ends => exact ends.elim
  | exit => exact (calm_exit x).leads h
  | stop => exact (calm_stop x).leads h
  | supply => exact (calm_modifyEngine x _ rfl).leads h

theorem Chores.leads (hchores : Chores .ordinary x y) (h : x.Aligned) : Leads x y :=
  hchores.invariant (P := Leads x) (fun _ _ hchore hx => hx.trans (hchore.leads hx.aligned)) h.leads

end Executor

/-! ### Validators -/

namespace Validator

variable {v v' : Validator n}

/-- A signature that is sent at once is over the block in hand. -/
lemma goes_serveSignature (h : v.toExecutor.Aligned) (receiver : ℕ) (rid : Rid) :
    Goes v.toExecutor (v.serveSignature receiver rid).toExecutor := by
  unfold serveSignature
  split
  · rename_i s hs
    split at hs
    · rename_i hrid
      refine h.sign (.inl ⟨fun hp => ?_, hrid⟩) receiver s
      rw [h.coherent.rid_eq_none.mpr hp] at hrid
      cases hrid
    · cases hs
  · exact (h.submit rfl (by simp)).goes

lemma goes_handleMessage (h : v.toExecutor.Aligned) {now : Duration} {sender : ℕ}
    {message : Message} (hr : v.handleMessage now sender message = .ok v') :
    Goes v.toExecutor v'.toExecutor := by
  cases message with
  | getBlockSignature rid =>
    let w := v.emit (.count (.received (Message.getBlockSignature rid).kind))
    have hcount : Leads v.toExecutor w.toExecutor := (Executor.calm_count _ _).leads h
    unfold handleMessage at hr
    simp only at hr
    split at hr
    · cases hr
      exact hcount.then_goes (goes_serveSignature (v := w) hcount.aligned sender rid)
    · cases hr
      have hinvalid : Calm _ _ := Executor.calm_count w.toExecutor .invalidMessage
      exact (hcount.trans ((hinvalid.trans (Executor.calm_note _ _)).leads hcount.aligned)).goes
  | _ =>
    have hworks : Works .ordinary v v' :=
      works_handleMessage (Message.heard_true _ _) (fun _ => rfl) (by simp) hr
    exact (hworks.chores.leads h).goes

lemma leads_tick (h : v.toExecutor.Aligned) {now : Duration} {r : Validator n × Intent}
    (ht : v.tick now = .ok r) : Leads v.toExecutor r.1.toExecutor :=
  (chores_tick (fun _ he => he) trivial ht).leads h

end Validator

/-! ### Runs -/

/-- What can happen to a validator. -/
inductive Happening where
  /-- A message is handled at once. -/
  | message (now : Duration) (sender : ℕ) (message : Message)
  /-- A message lines up for the loop. -/
  | mail (sender : ℕ) (message : Message)
  | turn (now time rung : Duration)
  | tick (now : Duration)
  | pump (now : Duration)
  | revolt
  /-- The pipeline runs its next task. -/
  | work (now : Duration)
  /-- An answer of the pipeline is applied. -/
  | finish (now : Duration) (index : ℕ)
  | push (tx : Bytes)
  /-- The storage is going to fail so often. -/
  | spoil (builds loads : ℕ)
  | shutDown
  | closeInbox
  | stop

/-- Whether the loop waits for its pipeline. -/
def Stage.asks : Stage → Bool
  | .readingHeight | .adding .. | .rechecking _ | .finishing _ => true
  | _ => false

namespace Runner

variable {r r' : Runner n}

def step (r : Runner n) : Happening → Except Fault (Runner n)
  | .message now sender message => r.handle now sender message
  | .mail sender message => return { r with inbox := r.inbox ++ [(sender, message)] }
  | .turn now time rung => return (← r.turn now time rung).getD r
  | .tick now => do
    let (v, _) ← r.toValidator.tick now
    return { r with toValidator := v }
  | .pump now => return r.modify (·.act (·.pump now))
  | .revolt => do
    let (x, _) ← r.toExecutor.tell .revolt
    return { r with toExecutor := x }
  | .work now => return r.modify (·.act fun x => (x.runTask now).getD x)
  | .finish now index =>
    match r.answers[index]? with
    | none => return r
    | some a => do
      let x ← { r.toExecutor with answers := r.answers.eraseIdx index }.finish now a
      return { r with toExecutor := x }
  | .push tx => return r.modify (·.act (·.push tx))
  | .spoil builds loads =>
    return r.modify (·.act (·.modifyEngine ({ · with failBuilds := builds, failLoads := loads })))
  | .shutDown => return { r with shutdown := true }
  | .closeInbox => return { r with inboxOpen := false }
  | .stop => return { r with pipeline := r.pipeline.stop }

/-- The validator after the happening, with the effects of that alone. A fault ends its loop. -/
def next (r : Runner n) (e : Happening) : Runner n :=
  match { r with effects := [] }.step e with
  | .ok r' => r'
  | .error _ => { r with effects := [], stage := .ended }

/-- The validator at the start of a run and after each happening. -/
def trail (r : Runner n) : List Happening → List (Runner n)
  | [] => [r]
  | e :: es => r :: (r.next e).trail es

/-- The loop is not busy with a fast sync. -/
def inConsensus (r : Runner n) : Bool :=
  match r.stage with
  | .ready | .closing | .stopping | .ended => true
  | _ => false

lemma stage_of_inConsensus (h : r.inConsensus = true) :
    r.stage = .ready ∨ r.stage = .closing ∨ r.stage = .stopping ∨ r.stage = .ended := by
  unfold inConsensus at h
  cases hs : r.stage <;> simp [hs] at h ⊢

lemma inConsensus_of_asks (h : r.stage.asks = true) : r.inConsensus = false := by
  unfold inConsensus
  cases hs : r.stage <;> simp [Stage.asks, hs] at h ⊢

section Turns

variable {now time rung : Duration}

lemma goes_handle (h : r.toExecutor.Aligned) {sender : ℕ} {message : Message}
    (hr : r.handle now sender message = .ok r') : Goes r.toExecutor r'.toExecutor := by
  obtain ⟨v, hv, hr'⟩ := Manager.exists_of_bind_eq_ok hr
  cases hr'
  exact Validator.goes_handleMessage h hv

/-- Unless it starts a fast sync, a tick of the loop is one of the validator. -/
lemma leads_onTick (h : r.toExecutor.Aligned) (ht : r.onTick now time = .ok r')
    (hs : r'.inConsensus = true) : Leads r.toExecutor r'.toExecutor := by
  unfold onTick at ht
  simp only at ht
  split at ht
  · cases ht
    cases hs
  · obtain ⟨⟨v, intent⟩, hv, hr'⟩ := Manager.exists_of_bind_eq_ok ht
    cases hr'
    exact Validator.leads_tick (v := { r.toValidator with }) h hv

lemma perm_eraseP {α : Type} {p : α → Bool} {l : List α} {a : α} (h : l.find? p = some a) :
    l.Perm (a :: l.eraseP p) := by
  induction l with
  | nil => cases h
  | cons b l ih =>
    rw [List.find?_cons] at h
    cases hb : p b with
    | true =>
      simp only [hb] at h
      cases h
      rw [List.eraseP_cons_of_pos hb]
    | false =>
      simp only [hb] at h
      rw [List.eraseP_cons_of_neg (by simp [hb])]
      exact ((ih h).cons b).trans (List.Perm.swap a b _)

/-- Answers that the loop waits for are about its own tasks. -/
lemma eq_of_ownAnswer {a : Answer Task} (h : r.ownAnswer? = some (a, r')) :
    a.task.isFastSync = true ∧
      ∃ answers, r.answers.Perm (a :: answers) ∧ r' = { r with answers } := by
  unfold ownAnswer? at h
  obtain ⟨b, hfind, hr⟩ := Option.map_eq_some_iff.mp h
  cases hr
  exact ⟨by simpa using List.find?_some hfind, _, perm_eraseP hfind, rfl⟩

lemma resume_ended (h : r.stage = .ended) (now time : Duration) (a : Answer Task) :
    r.resume now time a = .ok r := by
  unfold resume
  split
  · simp only [heightRead, h]
    rfl
  · simp only [blockAdded, h]
    rfl
  · rfl

lemma leads_close (h : r.toExecutor.Aligned) (entry : Note) :
    Leads r.toExecutor (r.modify (·.note entry)).close.toExecutor := by
  have hcalm : Calm r.toExecutor (r.modify (·.note entry)).close.toExecutor :=
    Executor.calm_books rfl
  exact hcalm.leads h

/-- All that a turn of the loop can do, by the stage that it finds. -/
inductive Takes (r : Runner n) (now time rung : Duration) : Runner n → Prop
  | shutDown (stage : r.stage = .ready) (asked : r.shutdown = true) :
      Takes r now time rung (r.modify (·.note .shutdownReceived)).close
  | handle {sender : ℕ} {message : Message} {inbox : List (ℕ × Message)} {r' : Runner n}
      (stage : r.stage = .ready) (mail : r.inbox = (sender, message) :: inbox)
      (handled : { r with inbox }.handle now sender message = .ok r') : Takes r now time rung r'
  | hangUp (stage : r.stage = .ready) (closed : r.inboxOpen = false) :
      Takes r now time rung (r.modify (·.note .inboxClosed)).close
  | tick {r' : Runner n} (stage : r.stage = .ready) (staying : r.shutdown = false)
      (unread : r.inbox = []) (listening : r.inboxOpen = true)
      (due : r.nextTick.reached rung = true) (ticked : r.onTick now time = .ok r') :
      Takes r now time rung r'
  | giveUp {f : FastSync} {deadline : Duration} (stage : r.stage = .fetching f deadline)
      (told : r.shutdown = true ∨ r.inboxOpen = false) : Takes r now time rung r.close
  | fetched {f : FastSync} {deadline : Duration} {sender : ℕ} {message : Message}
      {inbox : List (ℕ × Message)} {r' : Runner n} (stage : r.stage = .fetching f deadline)
      (mail : r.inbox = (sender, message) :: inbox)
      (handled : { r with inbox }.fetched now f sender message = .ok r') :
      Takes r now time rung r'
  | timeOut {f : FastSync} {deadline : Duration} {r' : Runner n}
      (stage : r.stage = .fetching f deadline) (late : deadline.reached rung = true)
      (asked : (r.modify (·.note .fastSyncTimedOut)).fetch { f with failures := f.failures + 1 }
        time = .ok r') : Takes r now time rung r'
  | pause (stage : r.stage = .pausing) (idle : r.busy = false) :
      Takes r now time rung ((r.modify (·.act (·.submit .chainHeight))).enter .readingHeight)
  | stop (stage : r.stage = .closing) (idle : r.busy = false) :
      Takes r now time rung { r with stage := .stopping, pipeline := r.pipeline.stop }
  | finish (stage : r.stage = .stopping) (exited : r.pipeline.exited = true) :
      Takes r now time rung ((r.modify (·.note .loopStopped)).enter .ended)
  | resume {a : Answer Task} {answers : List (Answer Task)} {r' : Runner n}
      (waiting : r.stage.asks = true ∨ r.stage = .ended) (own : a.task.isFastSync = true)
      (perm : r.answers.Perm (a :: answers))
      (resumed : { r with answers }.resume now time a = .ok r') : Takes r now time rung r'

lemma takes_of_turn (h : r.turn now time rung = .ok (some r')) : r.Takes now time rung r' := by
  unfold turn at h
  split at h
  · rename_i hstage
    split at h
    · rename_i hasked
      cases h
      exact .shutDown hstage hasked
    rename_i hstaying
    split at h
    · rename_i hmail
      obtain ⟨r₁, hr, hr'⟩ := Manager.exists_of_bind_eq_ok h
      cases hr'
      exact .handle hstage hmail hr
    · rename_i hunread
      split at h
      · rename_i hclosed
        cases h
        exact .hangUp hstage (by simpa using hclosed)
      rename_i hlistening
      split at h
      · rename_i hdue
        obtain ⟨r₁, hr, hr'⟩ := Manager.exists_of_bind_eq_ok h
        cases hr'
        exact .tick hstage (by simpa using hstaying) hunread (by simpa using hlistening) hdue hr
      · cases h
  · rename_i hstage
    split at h
    · rename_i hasked
      cases h
      exact .giveUp hstage (.inl hasked)
    split at h
    · rename_i hmail
      obtain ⟨r₁, hr, hr'⟩ := Manager.exists_of_bind_eq_ok h
      cases hr'
      exact .fetched hstage hmail hr
    · split at h
      · rename_i hclosed
        cases h
        exact .giveUp hstage (.inr (by simpa using hclosed))
      split at h
      · rename_i hlate
        obtain ⟨r₁, hr, hr'⟩ := Manager.exists_of_bind_eq_ok h
        cases hr'
        exact .timeOut hstage hlate hr
      · cases h
  · rename_i hstage
    split at h
    · cases h
    · rename_i hidle
      cases h
      exact .pause hstage (by simpa using hidle)
  · rename_i hstage
    split at h
    · cases h
    · rename_i hidle
      cases h
      exact .stop hstage (by simpa using hidle)
  · rename_i hstage
    split at h
    · rename_i hexited
      cases h
      exact .finish hstage hexited
    · cases h
  · split at h
    · rename_i a r₁ hown
      obtain ⟨r₂, hresume, hr'⟩ := Manager.exists_of_bind_eq_ok h
      cases hr'
      obtain ⟨hfast, answers, hperm, rfl⟩ := eq_of_ownAnswer hown
      refine .resume ?_ hfast hperm hresume
      cases hs : r.stage <;> simp_all [Stage.asks]
    · cases h

lemma goes_turn (h : r.toExecutor.Aligned) (hs : r.inConsensus = true)
    (ht : r.turn now time rung = .ok (some r')) (hs' : r'.inConsensus = true) :
    Goes r.toExecutor r'.toExecutor := by
  cases takes_of_turn ht with
  | shutDown | hangUp => exact (leads_close h _).goes
  | @handle _ _ inbox _ _ _ handled => exact goes_handle (r := { r with inbox }) h handled
  | tick _ _ _ _ _ ticked => exact (leads_onTick h ticked hs').goes
  | stop => exact ((Executor.calm_stop _).leads h).goes
  | finish => exact ((Executor.calm_note _ _).leads h).goes
  | @resume a answers _ waiting own perm resumed =>
    have hended : r.stage = .ended := by
      rcases waiting with hasks | hended
      · rw [inConsensus_of_asks hasks] at hs
        cases hs
      · exact hended
    have hsame := resume_ended (r := { r with answers }) hended now time a
    cases hsame.symm.trans resumed
    exact (h.taken (Task.aside_of_isFastSync own) perm).goes
  | giveUp stage | fetched stage | timeOut stage | pause stage => simp [inConsensus, stage] at hs

/-- One happening outside fast sync keeps the alignment. -/
theorem goes_step {e : Happening} (h : r.toExecutor.Aligned) (hs : r.inConsensus = true)
    (hstep : r.step e = .ok r') (hs' : r'.inConsensus = true) :
    Goes r.toExecutor r'.toExecutor := by
  cases e with
  | message now sender message => exact goes_handle h hstep
  | mail | shutDown | closeInbox =>
    cases hstep
    exact h.leads.goes
  | turn now time rung =>
    obtain ⟨taken, hturn, hr⟩ := Manager.exists_of_bind_eq_ok hstep
    cases hr
    cases taken with
    | none => exact h.leads.goes
    | some r₁ => exact goes_turn h hs hturn hs'
  | tick now =>
    obtain ⟨⟨v, intent⟩, hv, hr⟩ := Manager.exists_of_bind_eq_ok hstep
    cases hr
    exact (Validator.leads_tick h hv).goes
  | pump now =>
    cases hstep
    exact (h.pump now).goes
  | revolt =>
    obtain ⟨⟨x, told⟩, htell, hr⟩ := Manager.exists_of_bind_eq_ok hstep
    cases hr
    exact (h.told rfl rfl htell).goes
  | work now =>
    cases hstep
    change Goes r.toExecutor ((r.toExecutor.runTask now).getD r.toExecutor)
    cases hwork : r.toExecutor.runTask now with
    | none => exact h.leads.goes
    | some x => exact (h.runTask hwork).goes
  | finish now index =>
    simp only [step] at hstep
    split at hstep
    · cases hstep
      exact h.leads.goes
    · rename_i a ha
      obtain ⟨x, hx, hr⟩ := Manager.exists_of_bind_eq_ok hstep
      cases hr
      obtain ⟨hlt, rfl⟩ := List.getElem?_eq_some_iff.mp ha
      exact h.finish (List.getElem_cons_eraseIdx_perm hlt).symm hx
  | push tx =>
    cases hstep
    have hchore : Chore .ordinary r.toExecutor (r.toExecutor.push tx) := .supply _ _ _
    exact (hchore.leads h).goes
  | spoil builds loads =>
    cases hstep
    have hchore : Chore .ordinary r.toExecutor _ := .supply r.engine.queue builds loads
    exact (hchore.leads h).goes
  | stop =>
    cases hstep
    exact ((Executor.calm_stop _).leads h).goes

end Turns

/-! ### Whole runs -/

/-- What `r` was bound to binds `r'` too. -/
def Binds (r r' : Runner n) : Prop :=
  ∀ height rid, r.Bound height rid → r'.Bound height rid

lemma goes_next (h : r.toExecutor.Aligned) (hs : r.inConsensus = true) {e : Happening}
    (hs' : (r.next e).inConsensus = true) :
    Goes ({ r with effects := [] } : Runner n).toExecutor (r.next e).toExecutor := by
  have hquiet : ({ r with effects := [] } : Runner n).toExecutor.Aligned := h.withEffects []
  unfold next at hs' ⊢
  split
  · rename_i r' hstep
    rw [hstep] at hs'
    exact goes_step hquiet hs hstep hs'
  · exact hquiet.leads.goes

variable {es : List Happening}

lemma mem_trail_cons {e : Happening} :
    r' ∈ r.trail (e :: es) ↔ r' = r ∨ r' ∈ (r.next e).trail es := List.mem_cons

lemma mem_trail_self (r : Runner n) (es : List Happening) : r ∈ r.trail es := by
  cases es <;> simp [trail]

/-- A run that ends earlier goes through the same states. -/
lemma trail_take (r : Runner n) (es : List Happening) (k : ℕ) :
    (r.trail es).take (k + 1) = r.trail (es.take k) := by
  induction es generalizing r k with
  | nil => simp [trail]
  | cons e es ih =>
    cases k with
    | zero => simp [trail]
    | succ k => simp [trail, ih]

lemma aligned_of_mem_trail (h : r.toExecutor.Aligned)
    (hs : ∀ x ∈ r.trail es, x.inConsensus = true) :
    ∀ x ∈ r.trail es, x.toExecutor.Aligned ∧ Binds r x := by
  induction es generalizing r with
  | nil =>
    intro x hx
    rw [List.mem_singleton.mp hx]
    exact ⟨h, fun _ _ hb => hb⟩
  | cons e es ih =>
    intro x hx
    have hlater : ∀ y ∈ (r.next e).trail es, y.inConsensus = true := fun y hy =>
      hs y (mem_trail_cons.mpr (.inr hy))
    rcases mem_trail_cons.mp hx with rfl | hx
    · exact ⟨h, fun _ _ hb => hb⟩
    · have hgoes := goes_next h (hs r (mem_trail_self r _)) (hlater _ (mem_trail_self _ es))
      obtain ⟨hx, hb⟩ := ih hgoes.aligned hlater x hx
      exact ⟨hx, fun k rid hr => hb k rid (hgoes.bound k rid hr)⟩

/-- Later states of a run are bound to what earlier ones were. -/
theorem pairwise_binds_trail (h : r.toExecutor.Aligned)
    (hs : ∀ x ∈ r.trail es, x.inConsensus = true) :
    (r.trail es).Pairwise Binds := by
  induction es generalizing r with
  | nil => exact List.pairwise_singleton Binds r
  | cons e es ih =>
    have hlater : ∀ y ∈ (r.next e).trail es, y.inConsensus = true := fun y hy =>
      hs y (mem_trail_cons.mpr (.inr hy))
    have hgoes := goes_next h (hs r (mem_trail_self r _)) (hlater _ (mem_trail_self _ es))
    refine List.pairwise_cons.mpr ⟨fun x hx => ?_, ih hgoes.aligned hlater⟩
    exact (aligned_of_mem_trail h hs x (mem_trail_cons.mpr (.inr hx))).2

/-- Whatever is signed along a run is in hand or in the chain just then. -/
theorem backs_of_mem_trail (h : r.toExecutor.Aligned) (hsaid : ∀ rid ∈ r.said, r.Backs rid)
    (hs : ∀ x ∈ r.trail es, x.inConsensus = true) :
    ∀ x ∈ r.trail es, ∀ rid ∈ x.said, x.Backs rid := by
  induction es generalizing r with
  | nil =>
    intro x hx
    rw [List.mem_singleton.mp hx]
    exact hsaid
  | cons e es ih =>
    intro x hx
    have hlater : ∀ y ∈ (r.next e).trail es, y.inConsensus = true := fun y hy =>
      hs y (mem_trail_cons.mpr (.inr hy))
    rcases mem_trail_cons.mp hx with rfl | hx
    · exact hsaid
    · have hgoes := goes_next h (hs r (mem_trail_self r _)) (hlater _ (mem_trail_self _ es))
      refine ih hgoes.aligned (fun rid hr => ?_) hlater x hx
      rcases hgoes.said rid hr with hold | hnew
      · cases hold
      · exact hnew

end Runner

end Conclave

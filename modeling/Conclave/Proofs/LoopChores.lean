import Conclave.Proofs.ValidatorRuns

/-!
# The chores of a loop

Whatever happens to a validator in its loop, fast sync included, its executor does some chores, or
its pipeline does a job, or an answer is applied. Whatever these preserve holds along every run,
whatever the peers say and whenever tasks are done.
-/

namespace Conclave

open Executor (Scope Chores chores_note)

variable {n : ℕ}

/-- The time at which something happens, where it has one. -/
def Happening.now? : Happening → Option Duration
  | .message now .. | .turn now .. | .tick now | .pump now | .work now | .finish now _ => some now
  | _ => none

/-- The sender and the content of a commit signature that happens to come from a peer. -/
def Happening.signature? : Happening → Option (ℕ × Rid × Signature)
  | .message _ sender (.blockSignature rid s) | .mail sender (.blockSignature rid s) =>
    some (sender, rid, s)
  | _ => none

/-- Whether a commit signature comes from a peer in one of the happenings. -/
def Heard (es : List Happening) (sender : ℕ) (rid : Rid) (s : Signature) : Prop :=
  ∃ e ∈ es, e.signature? = some (sender, rid, s)

namespace Runner

variable {c : Scope} {r r' : Runner n} {now time rung : Duration} {e : Happening}

/-- From `r` to `r'` the executor did its chores, no message has lined up, and nobody was asked for
the intent's sake. -/
structure Works (c : Scope) (r r' : Runner n) : Prop extends
    Validator.Works c r.toValidator r'.toValidator where
  inbox : r'.inbox ⊆ r.inbox

lemma Works.trans {r₁ r₂ r₃ : Runner n} (h : Works c r₁ r₂) (h' : Works c r₂ r₃) : Works c r₁ r₃ :=
  ⟨Validator.Works.trans h.toWorks h'.toWorks, fun _ hm => h.inbox (h'.inbox hm)⟩

lemma works_chores {x : Executor n} (h : Chores c r.toExecutor x) (stage : Stage) :
    Works c r { r with toExecutor := x, stage } :=
  ⟨⟨⟨rfl, rfl⟩, h⟩, fun _ hm => hm⟩

/-! ### Fast sync -/

section FastSyncs

variable {f : FastSync} {timestamp : Option ℕ} {a : Answer Task}

lemma works_endFastSync (hfast : c.fast) (r : Runner n) (f : FastSync) :
    Works c r (r.endFastSync f) :=
  ⟨⟨⟨rfl, rfl⟩, Executor.chores_ask _ rfl (by simp) fun _ => hfast⟩, fun _ hm => hm⟩

lemma works_fetch (hall : ∀ e, c.allows e) (hfast : c.fast) (h : r.fetch f time = .ok r') :
    Works c r r' := by
  unfold fetch Validator.randomPeer at h
  simp only at h
  split at h
  · cases h
    exact works_endFastSync hfast r f
  split at h
  · cases h
  generalize r.random.choose _ = choice at h
  obtain ⟨peer, random⟩ := choice
  cases peer with
  | none =>
    cases h
    have hend : Works c { r with random } _ := works_endFastSync hfast _ f
    exact ⟨⟨⟨rfl, rfl⟩, hend.chores⟩, fun _ hm => hm⟩
  | some peer =>
    cases h
    exact ⟨⟨⟨rfl, rfl⟩, .single (.say _ (hall _))⟩, fun _ hm => hm⟩

/-- At its end the manager catches up with what the fast sync has added, if the chain height could
be read. -/
lemma heightRead_of_finishing (hstage : r.stage = .finishing timestamp)
    {result : Except PipelineError (Option ℕ)} (h : r.heightRead now time result = .ok r') :
    ∃ x entry, r' = { r with toExecutor := x.note entry, stage := .ready } ∧
      (x = r.toExecutor ∨
        ∃ committed, x = (r.toExecutor.setTime now).catchUp committed timestamp) := by
  unfold heightRead at h
  simp only [hstage] at h
  cases result with
  | ok height =>
    obtain ⟨t, htell, hr⟩ := Manager.exists_of_bind_eq_ok h
    obtain ⟨rfl, -⟩ := Executor.tell_eq_ok htell
    cases hr
    exact ⟨_, _, rfl, .inr ⟨height.getD 0, rfl⟩⟩
  | error cause =>
    cases h
    exact ⟨_, _, rfl, .inl rfl⟩

lemma works_heightRead (hall : ∀ e, c.allows e) (hfast : c.fast)
    (hleaves : ∀ timestamp, r.stage = .finishing timestamp → c.leaves)
    {result : Except PipelineError (Option ℕ)} (h : r.heightRead now time result = .ok r') :
    Works c r r' := by
  cases hstage : r.stage with
  | finishing timestamp =>
    obtain ⟨x, entry, rfl, hx⟩ := heightRead_of_finishing hstage h
    refine works_chores (.trans ?_ (chores_note x entry)) .ready
    rcases hx with rfl | ⟨committed, rfl⟩
    · exact .refl
    · exact (Executor.chores_setTime _ now).tail (.leave _ timestamp (hleaves timestamp hstage))
  | readingHeight =>
    simp only [heightRead, hstage] at h
    cases result with
    | ok height =>
      have hnote : Works c r (r.modify (·.note .fastSyncStarted)) :=
        works_chores (chores_note _ _) r.stage
      exact hnote.trans (works_fetch hall hfast h)
    | error cause =>
      cases h
      exact ⟨⟨⟨rfl, rfl⟩, chores_note _ _⟩, fun _ hm => hm⟩
  | rechecking f =>
    simp only [heightRead, hstage] at h
    rcases result with cause | height | height <;> exact works_fetch hall hfast h
  | _ =>
    simp only [heightRead, hstage] at h
    cases h
    exact ⟨⟨⟨rfl, rfl⟩, .refl⟩, fun _ hm => hm⟩

lemma works_blockAdded (hall : ∀ e, c.allows e) (hfast : c.fast)
    {result : Except PipelineError Unit} (h : r.blockAdded time result = .ok r') :
    Works c r r' := by
  unfold blockAdded at h
  split at h
  · have hcount : Works c r (r.modify (·.emit (.count .fastSyncedBlock))) :=
      works_chores (.single (.say _ (hall _))) r.stage
    exact hcount.trans (works_fetch hall hfast h)
  · rename_i f _ cause _
    split at h
    · cases h
      have hnote : Works c r (r.modify (·.note (.fastSyncClosed cause))) :=
        works_chores (chores_note _ _) r.stage
      exact hnote.trans (works_endFastSync hfast _ f)
    · cases h
      have hnote : Chores c r.toExecutor (r.note (.failed .fastSyncAdd cause)).toExecutor :=
        chores_note _ _
      exact works_chores (hnote.trans (Executor.chores_ask _ rfl (by simp) fun _ => hfast)) _
  · cases h
    exact works_chores .refl r.stage

lemma works_resume (hall : ∀ e, c.allows e) (hfast : c.fast)
    (hleaves : ∀ timestamp, r.stage = .finishing timestamp → c.leaves)
    (h : r.resume now time a = .ok r') : Works c r r' := by
  unfold resume at h
  split at h
  · exact works_heightRead hall hfast hleaves h
  · exact works_blockAdded hall hfast h
  · cases h
    exact works_chores .refl r.stage

end FastSyncs

/-! ### One turn -/

lemma works_handle (hall : ∀ e, c.allows e) {sender : ℕ} {message : Message}
    (hm : message.Heard c.heard sender) (h : r.handle now sender message = .ok r') :
    Works c r r' := by
  obtain ⟨v, hv, hr⟩ := Manager.exists_of_bind_eq_ok h
  cases hr
  exact ⟨Validator.works_handleMessage hm (fun _ => hall _) (fun _ _ _ => hall _) hv,
    fun _ hm => hm⟩

lemma works_fetched (hall : ∀ e, c.allows e) (hfast : c.fast) {f : FastSync} {sender : ℕ}
    {message : Message} (hm : message.Heard c.heard sender)
    (h : r.fetched now f sender message = .ok r') : Works c r r' := by
  unfold fetched at h
  split at h
  · split at h
    · cases h
      exact works_chores (Executor.chores_ask _ rfl (by simp) fun _ => hfast) _
    · exact works_handle hall hm h
  · exact works_handle hall hm h

/-- A turn of the loop ticks when nothing else is to be done, and no fast sync either. -/
def ticks (r : Runner n) (rung : Duration) : Bool :=
  match r.stage, r.inbox with
  | .ready, [] => ¬r.shutdown ∧ r.inboxOpen ∧ r.nextTick.reached rung ∧ ¬r.fastSync
  | _, _ => false

lemma turn_of_ticks (ht : r.ticks rung = true) :
    r.turn now time rung = (r.toValidator.tick now).map fun t => some
      { r with
        toValidator := t.1
        nextTick := tickAfter r.nextTick time r.sync.tickInterval } := by
  unfold ticks at ht
  split at ht
  · rename_i hstage hinbox
    obtain ⟨hshutdown, hopen, hreached, hfast⟩ := of_decide_eq_true ht
    simp only [turn, hstage, hinbox, hshutdown, hopen, hreached, hfast, onTick]
    cases r.toValidator.tick now <;> rfl
  · cases ht

/-- The messages that wait for the loop bring heard signatures only. -/
def Attentive (heard : ℕ → Rid → Signature → Prop) (r : Runner n) : Prop :=
  ∀ mail ∈ r.inbox, mail.2.Heard heard mail.1

lemma attentive_true (r : Runner n) : r.Attentive fun _ _ _ => True := fun mail _ =>
  mail.2.heard_true mail.1

lemma Attentive.first {heard : ℕ → Rid → Signature → Prop} (hin : r.Attentive heard)
    {sender : ℕ} {message : Message} {inbox : List (ℕ × Message)}
    (hinbox : r.inbox = (sender, message) :: inbox) : message.Heard heard sender := by
  apply hin (sender, message)
  rw [hinbox]
  exact List.mem_cons_self

/-- The first message in the inbox is taken out. -/
lemma works_mail {sender : ℕ} {message : Message} {inbox : List (ℕ × Message)}
    (hinbox : r.inbox = (sender, message) :: inbox) : Works c r { r with inbox } := by
  refine ⟨⟨⟨rfl, rfl⟩, .refl⟩, fun m hm => ?_⟩
  rw [hinbox]
  exact List.mem_cons_of_mem _ hm

lemma works_close (r : Runner n) {f : Validator n → Validator n}
    (hf : Validator.Works c r.toValidator (f r.toValidator)) : Works c r (r.modify f).close :=
  ⟨⟨⟨hf.lastRequest, hf.sync⟩, hf.chores.tail (.wait _)⟩, fun _ hm => hm⟩

/-- The answer for the loop itself is taken out. -/
lemma works_take {a : Answer Task} {answers : List (Answer Task)}
    (hperm : r.answers.Perm (a :: answers)) (hown : a.task.isFastSync = true) :
    Works c r { r with answers } :=
  works_chores (.single (.drop hperm hown)) r.stage

/-- A turn that does not tick asks nobody for the intent's sake. -/
theorem works_turn (hall : ∀ e, c.allows e) (hin : r.Attentive c.heard)
    (hfast : r.inConsensus = false → c.fast)
    (hleaves : ∀ timestamp, r.stage = .finishing timestamp → c.leaves) (ht : r.ticks rung = false)
    (h : r.turn now time rung = .ok (some r')) : Works c r r' := by
  cases takes_of_turn h with
  | shutDown | hangUp => exact works_close r (Validator.works_note _ _)
  | handle _ mail handled =>
    exact (works_mail mail).trans (works_handle hall (hin.first mail) handled)
  | tick stage staying unread listening due ticked =>
    have hsync : r.fastSync = true := by
      simpa [ticks, stage, unread, staying, due, listening] using ht
    unfold onTick at ticked
    rw [if_pos hsync] at ticked
    cases ticked
    exact ⟨⟨⟨rfl, rfl⟩, .single (.wait _)⟩, fun _ hm => hm⟩
  | giveUp => exact works_chores (.single (.wait _)) .closing
  | fetched stage mail handled =>
    have hduring : c.fast := hfast (by simp [inConsensus, stage])
    exact (works_mail mail).trans (works_fetched hall hduring (hin.first mail) handled)
  | timeOut stage _ asked =>
    have hduring : c.fast := hfast (by simp [inConsensus, stage])
    have hnote : Works c r (r.modify (·.note .fastSyncTimedOut)) :=
      works_chores (chores_note _ _) r.stage
    exact hnote.trans (works_fetch hall hduring asked)
  | pause stage =>
    have hduring : c.fast := hfast (by simp [inConsensus, stage])
    exact works_chores (Executor.chores_ask _ rfl (by simp) fun _ => hduring) .readingHeight
  | stop => exact works_chores (.single .stop) .stopping
  | finish => exact works_chores (chores_note _ _) .ended
  | @resume a answers _ waiting own perm resumed =>
    rcases waiting with hasks | hended
    · have hduring : c.fast := hfast (inConsensus_of_asks hasks)
      exact (works_take perm own).trans (works_resume hall hduring hleaves resumed)
    · have hsame := resume_ended (r := { r with answers }) hended now time a
      cases hsame.symm.trans resumed
      exact works_take perm own

lemma chores_turn (hall : ∀ e, c.allows e) (hacts : c.acts now) (hin : r.Attentive c.heard)
    (hfast : r.inConsensus = false → c.fast)
    (hleaves : ∀ timestamp, r.stage = .finishing timestamp → c.leaves)
    (h : r.turn now time rung = .ok (some r')) :
    Chores c r.toExecutor r'.toExecutor ∧ r'.inbox ⊆ r.inbox := by
  cases ht : r.ticks rung with
  | false =>
    have hworks := works_turn hall hin hfast hleaves ht h
    exact ⟨hworks.chores, hworks.inbox⟩
  | true =>
    rw [turn_of_ticks ht] at h
    cases hv : r.toValidator.tick now with
    | error fault =>
      rw [hv] at h
      cases h
    | ok t =>
      rw [hv] at h
      cases h
      exact ⟨Validator.chores_tick (fun e _ => hall e) hacts hv, fun _ hm => hm⟩

/-! ### One happening -/

/-- What a happening makes of a loop, a fault apart. -/
inductive Steps (c : Scope) (r : Runner n) : Happening → Runner n → Prop
  | chores {e : Happening} {r' : Runner n} (chores : Chores c r.toExecutor r'.toExecutor)
      (inbox : ∀ mail ∈ r'.inbox, mail ∈ r.inbox ∨ e = .mail mail.1 mail.2) : Steps c r e r'
  /-- The pipeline does a job. -/
  | work {now : Duration} {a : Answer Task} {p : Pipeline (Engine n) (Builder n) Task}
      {effects : List Effect} (next : r.pipeline.next (r.policy.order now) = some (a, p)) :
      Steps c r (.work now)
        { r with pipeline := p, answers := r.answers ++ [a], effects }
  /-- An answer is applied. -/
  | finish {now : Duration} {index : ℕ} {a : Answer Task} {x : Executor n}
      (answered : r.answers[index]? = some a)
      (applied : { r.toExecutor with answers := r.answers.eraseIdx index }.finish now a = .ok x) :
      Steps c r (.finish now index) { r with toExecutor := x }

lemma steps_of_works (h : Works c r r') : Steps c r e r' :=
  .chores h.chores fun _ hm => .inl (h.inbox hm)

lemma steps_chores {x : Executor n} (h : Chores c r.toExecutor x) :
    Steps c r e { r with toExecutor := x } :=
  .chores h fun _ hm => .inl hm

lemma steps_work (r : Runner n) (now : Duration) :
    Steps c r (.work now) (r.modify (·.act fun x => (x.runTask now).getD x)) := by
  change Steps c r _ { r with toExecutor := (r.toExecutor.runTask now).getD r.toExecutor }
  unfold Executor.runTask
  split
  · rename_i hnext
    simp only
    split
    · exact .work hnext
    · exact .work hnext
  · split
    · exact steps_chores (.single .exit)
    · exact steps_chores .refl

/-- All that can happen to a loop. -/
theorem steps_of_step (hall : ∀ e, c.allows e) (hacts : ∀ now, e.now? = some now → c.acts now)
    (hin : r.Attentive c.heard)
    (he : ∀ sender rid s, e.signature? = some (sender, rid, s) → c.heard sender rid s)
    (hfast : r.inConsensus = false → c.fast)
    (hleaves : ∀ now time rung, e = .turn now time rung →
      ∀ timestamp, r.stage = .finishing timestamp → c.leaves)
    (h : r.step e = .ok r') : Steps c r e r' := by
  cases e with
  | message now sender message =>
    refine steps_of_works (works_handle hall ?_ h)
    cases message with
    | blockSignature rid s => exact he sender rid s rfl
    | _ => trivial
  | mail sender message =>
    cases h
    refine .chores .refl fun m hm => ?_
    rcases List.mem_append.mp hm with hold | hnew
    · exact .inl hold
    · rw [List.mem_singleton.mp hnew]
      exact .inr rfl
  | turn now time rung =>
    obtain ⟨taken, hturn, hr⟩ := Manager.exists_of_bind_eq_ok h
    cases hr
    cases taken with
    | none => exact steps_chores .refl
    | some r₁ =>
      obtain ⟨hchores, hinbox⟩ :=
        chores_turn hall (hacts now rfl) hin hfast (hleaves now time rung rfl) hturn
      exact .chores hchores fun _ hm => .inl (hinbox hm)
  | tick now =>
    obtain ⟨⟨v, intent⟩, hv, hr⟩ := Manager.exists_of_bind_eq_ok h
    cases hr
    exact .chores (Validator.chores_tick (fun e _ => hall e) (hacts now rfl) hv) fun _ hm => .inl hm
  | pump now =>
    cases h
    exact steps_chores (Executor.chores_pump _ (hacts now rfl))
  | revolt =>
    obtain ⟨⟨x, told⟩, htell, hr⟩ := Manager.exists_of_bind_eq_ok h
    cases hr
    exact steps_chores (Executor.chores_tell rfl rfl htell)
  | work now =>
    cases h
    exact steps_work r now
  | finish now index =>
    simp only [step] at h
    split at h
    · cases h
      exact steps_chores .refl
    · rename_i a ha
      obtain ⟨x, hx, hr⟩ := Manager.exists_of_bind_eq_ok h
      cases hr
      exact .finish ha hx
  | push tx =>
    cases h
    exact steps_chores (.single (.supply _ _ _))
  | spoil builds loads =>
    cases h
    exact steps_chores (.single (.supply _ builds loads))
  | shutDown | closeInbox =>
    cases h
    exact .chores .refl fun _ hm => .inl hm
  | stop =>
    cases h
    exact steps_chores (.single .stop)

/-- What lines up is what peers have sent. -/
lemma Steps.attentive (h : Steps c r e r') (hin : r.Attentive c.heard)
    (he : ∀ sender rid s, e.signature? = some (sender, rid, s) → c.heard sender rid s) :
    r'.Attentive c.heard := by
  cases h with
  | chores _ inbox =>
    intro mail hmail
    rcases inbox mail hmail with hold | rfl
    · exact hin mail hold
    · obtain ⟨sender, message⟩ := mail
      cases message with
      | blockSignature rid s => exact he sender rid s rfl
      | _ => trivial
  | work | finish => exact hin

end Runner

end Conclave

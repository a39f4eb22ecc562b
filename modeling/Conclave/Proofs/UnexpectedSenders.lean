import Conclave.Proofs.FailedFastSync
import Conclave.Proofs.ExecutorBeats

/-!
# Messages of strangers

A validator listens to the other validators only. A message of anyone else is dropped, and a run
in which strangers send messages is, but for what is counted and logged, the run without them.
There is one way in: a fast sync takes any block for the height that it asked for, whoever sends
it.
-/

namespace Conclave

variable {n : ℕ}

/-- The senders that the validator `me` listens to. -/
def IsPeer (me : Fin n) (sender : ℕ) : Prop := sender < n ∧ sender ≠ me

instance (me : Fin n) (sender : ℕ) : Decidable (IsPeer me sender) :=
  inferInstanceAs (Decidable (_ ∧ _))

/-- Whether the loop takes up messages. -/
def Stage.listens : Stage → Bool
  | .ready | .fetching .. => true
  | _ => false

/-- Whether the message is the block that a fast sync asked for. -/
def Stage.awaits : Stage → Message → Bool
  | .fetching f _, .completeBlock _ height => height = f.height + 1
  | _, _ => false

/-- The message that is sent, with its receiver. -/
def Effect.sent? : Effect → Option (Option ℕ × Message)
  | .send receiver message => some (receiver, message)
  | _ => none

def Happening.sender? : Happening → Option ℕ
  | .message _ sender _ | .mail sender _ => some sender
  | _ => none

/-- All that remains of a message that is dropped. -/
def Message.dismissal (message : Message) : List Effect :=
  [.note .unexpectedSender, .count .invalidMessage, .count (.received message.kind)]

lemma Executor.Beat.me_eq {heard : ℕ → Rid → Signature → Prop} {x y : Executor n}
    (h : Executor.Beat heard x y) : y.manager.me = x.manager.me := by
  cases h with
  | tell input => exact (Manager.fixed_respond x.manager input).1
  | conclude _ told =>
    rcases told with rfl | ⟨input, -, rfl⟩
    · rfl
    · exact (Manager.fixed_respond x.manager input).1
  | _ => rfl

namespace Runner

variable {r r' : Runner n} {e : Happening} {now time rung : Duration} {sender : ℕ}
  {message : Message} {inbox : List (ℕ × Message)}

/-- The message that a happening has the validator take up, with its sender, and the mail that is
left. -/
def received? (r : Runner n) : Happening → Option ((ℕ × Message) × List (ℕ × Message))
  | .message _ sender message => some ((sender, message), r.inbox)
  | .turn .. =>
    if r.stage.listens ∧ ¬r.shutdown then
      match r.inbox with
      | [] => none
      | mail :: inbox => some (mail, inbox)
    else none
  | _ => none

/-- The sender of the block with which a fast sync goes on. -/
def suppliedBy? (r : Runner n) (e : Happening) : Option ℕ :=
  match e, r.received? e with
  | .turn .., some ((sender, message), _) => if r.stage.awaits message then some sender else none
  | _, _ => none

/-! ### One message -/

/-- Takes up a message, as the stage has it. -/
def takeUp (r : Runner n) (now : Duration) (mail : ℕ × Message) : Except Fault (Runner n) :=
  match r.stage with
  | .fetching f _ => r.fetched now f mail.1 mail.2
  | _ => r.handle now mail.1 mail.2

lemma turn_eq_takeUp (hs : r.stage.listens = true ∧ ¬r.shutdown) {mail : ℕ × Message}
    (hi : r.inbox = mail :: inbox) :
    r.turn now time rung = ({ r with inbox }.takeUp now mail).map some := by
  obtain ⟨hl, hs⟩ := hs
  unfold turn takeUp
  cases hstage : r.stage with
  | ready =>
    simp only [hi, if_neg hs]
    rfl
  | fetching f deadline =>
    simp only [hi, if_neg hs]
    rfl
  | _ => simp [hstage, Stage.listens] at hl

lemma handle_of_stranger (hs : ¬IsPeer r.manager.me sender) :
    r.handle now sender message = .ok { r with effects := message.dismissal ++ r.effects } := by
  have hdrop : r.handleMessage now sender message =
      .ok { r.toValidator with effects := message.dismissal ++ r.effects } := if_neg hs
  unfold handle
  rw [hdrop]
  rfl

lemma fetched_of_not_awaits {f : FastSync} {deadline : Duration}
    (ha : (Stage.fetching f deadline).awaits message = false) :
    r.fetched now f sender message = r.handle now sender message := by
  cases message with
  | completeBlock b height => exact if_neg (of_decide_eq_false ha)
  | _ => rfl

lemma takeUp_of_not_awaits (ha : r.stage.awaits message = false) :
    r.takeUp now (sender, message) = r.handle now sender message := by
  unfold takeUp
  split
  · rename_i f deadline hstage
    rw [hstage] at ha
    exact fetched_of_not_awaits ha
  · rfl

lemma received_turn_iff {mail : ℕ × Message} :
    r.received? (.turn now time rung) = some (mail, inbox) ↔
      (r.stage.listens = true ∧ ¬r.shutdown) ∧ r.inbox = mail :: inbox := by
  unfold received?
  simp only
  split
  · rename_i hl
    rw [and_iff_right hl]
    cases r.inbox <;> simp
  · rename_i hl
    simp only [reduceCtorEq, false_iff, not_and]
    exact fun h => absurd h hl

lemma next_turn_of_received {mail : ℕ × Message}
    (hr : r.received? (.turn now time rung) = some (mail, inbox)) :
    r.next (.turn now time rung) =
      match { r with inbox, effects := [] }.takeUp now mail with
      | .ok r' => r'
      | .error _ => { r with effects := [], stage := .ended } := by
  obtain ⟨hl, hi⟩ := received_turn_iff.mp hr
  have hturn : { r with effects := [] }.turn now time rung = _ :=
    turn_eq_takeUp (r := { r with effects := [] }) hl hi
  simp only [next, step, hturn]
  cases { r with inbox, effects := [] }.takeUp now mail <;> rfl

/-- A message of a stranger is dropped, whatever the loop is about, unless it supplies a fast
sync. -/
theorem next_of_stranger (hr : r.received? e = some ((sender, message), inbox))
    (hs : ¬IsPeer r.manager.me sender) (ha : r.suppliedBy? e = none) :
    r.next e = { r with inbox, effects := message.dismissal } := by
  cases e with
  | message now =>
    cases hr
    have hdrop : { r with effects := [] }.handle now sender message = _ := handle_of_stranger hs
    simp only [next, step, hdrop]
    rfl
  | turn now time rung =>
    have hawaits : r.stage.awaits message = false := by
      simpa [suppliedBy?, hr] using ha
    have hsame : { r with inbox, effects := [] }.takeUp now (sender, message) =
        { r with inbox, effects := [] }.handle now sender message := takeUp_of_not_awaits hawaits
    have hdrop : { r with inbox, effects := [] }.handle now sender message = _ :=
      handle_of_stranger hs
    rw [next_turn_of_received hr, hsame, hdrop]
    rfl
  | _ => cases hr

lemma takeUp_of_awaits (ha : r.stage.awaits message = true) :
    ∃ r', ∀ sender, r.takeUp now (sender, message) = .ok r' := by
  unfold takeUp
  cases hstage : r.stage with
  | fetching f deadline =>
    rw [hstage] at ha
    cases message with
    | completeBlock b height => exact ⟨_, fun _ => if_pos (of_decide_eq_true ha)⟩
    | _ => cases ha
  | _ => simp [hstage, Stage.awaits] at ha

lemma received_of_supplied (h : r.suppliedBy? e = some sender) :
    ∃ message inbox, r.received? e = some ((sender, message), inbox) ∧
      r.stage.awaits message = true := by
  unfold suppliedBy? at h
  split at h
  · rename_i hr
    split at h
    · rename_i ha
      cases h
      exact ⟨_, _, hr, ha⟩
    · cases h
  · cases h

/-- The block that a fast sync asked for is taken from anyone. -/
theorem next_of_supplied (h : r.suppliedBy? e = some sender) (other : ℕ) :
    { r with inbox := r.inbox.modifyHead fun mail => (other, mail.2) }.next e = r.next e := by
  obtain ⟨message, inbox, hr, ha⟩ := received_of_supplied h
  cases e with
  | turn now time rung =>
    obtain ⟨hl, hi⟩ := received_turn_iff.mp hr
    have hr' : { r with inbox := r.inbox.modifyHead fun mail => (other, mail.2) }.received?
        (.turn now time rung) = some ((other, message), inbox) :=
      received_turn_iff.mpr ⟨hl, by rw [hi]; rfl⟩
    obtain ⟨r', htaken⟩ : ∃ r', ∀ sender,
        { r with inbox, effects := [] }.takeUp now (sender, message) = .ok r' :=
      takeUp_of_awaits (r := { r with inbox, effects := [] }) ha
    have hother := next_turn_of_received hr'
    simp only [htaken] at hother
    rw [next_turn_of_received hr, htaken, hother]
  | _ => cases h

/-! ### The mail of strangers -/

/-- The mail that peers have sent. -/
def peerMail (me : Fin n) (inbox : List (ℕ × Message)) : List (ℕ × Message) :=
  inbox.filter fun mail => IsPeer me mail.1

def stow (r : Runner n) (inbox : List (ℕ × Message)) : Runner n := { r with inbox }

@[simp] lemma stage_stow : (r.stow inbox).stage = r.stage := rfl

@[simp] lemma inbox_stow : (r.stow inbox).inbox = inbox := rfl

@[simp] lemma shutdown_stow : (r.stow inbox).shutdown = r.shutdown := rfl

@[simp] lemma inboxOpen_stow : (r.stow inbox).inboxOpen = r.inboxOpen := rfl

@[simp] lemma nextTick_stow : (r.stow inbox).nextTick = r.nextTick := rfl

@[simp] lemma toValidator_stow : (r.stow inbox).toValidator = r.toValidator := rfl

lemma modify_stow (f : Validator n → Validator n) :
    (r.stow inbox).modify f = (r.modify f).stow inbox := rfl

lemma handle_stow : (r.stow inbox).handle now sender message =
    (r.handle now sender message).map (·.stow inbox) := by
  unfold handle
  simp only [stow]
  cases r.toValidator.handleMessage now sender message <;> rfl

lemma fetch_stow (f : FastSync) : (r.stow inbox).fetch f time =
    (r.fetch f time).map (·.stow inbox) := by
  unfold fetch
  by_cases hfailed : r.sync.fastSyncRetries < f.failures
  · simp only [stow, hfailed, if_true]
    rfl
  by_cases hlast : f.height = Word.maxUnsigned
  · simp only [stow, hfailed, hlast, if_true, if_false]
    rfl
  · simp only [stow, hfailed, hlast, if_false]
    cases (r.randomPeer fun s => decide (s.height > f.height + 1)).1 <;> rfl

lemma fetched_stow (f : FastSync) : (r.stow inbox).fetched now f sender message =
    (r.fetched now f sender message).map (·.stow inbox) := by
  cases message with
  | completeBlock b height =>
    unfold fetched
    simp only
    split
    · rfl
    · exact handle_stow
  | _ => exact handle_stow

lemma takeUp_stow {mail : ℕ × Message} : (r.stow inbox).takeUp now mail =
    (r.takeUp now mail).map (·.stow inbox) := by
  unfold takeUp
  rw [stage_stow]
  split
  · exact fetched_stow _
  · exact handle_stow

lemma onTick_stow : (r.stow inbox).onTick now time = (r.onTick now time).map (·.stow inbox) := by
  unfold onTick
  by_cases hfast : r.fastSync
  · simp only [stow, hfast, if_true]
    rfl
  · simp only [stow, hfast]
    cases r.toValidator.tick now <;> rfl

lemma heightRead_stow (result : Except PipelineError (Option ℕ)) :
    (r.stow inbox).heightRead now time result =
      (r.heightRead now time result).map (·.stow inbox) := by
  unfold heightRead
  rw [stage_stow]
  cases hstage : r.stage with
  | readingHeight =>
    cases result with
    | ok height => exact fetch_stow (r := r.modify (·.note .fastSyncStarted)) _
    | error cause => rfl
  | rechecking f =>
    rcases result with cause | height | height
    · exact fetch_stow _
    · exact fetch_stow _
    · exact fetch_stow _
  | finishing timestamp =>
    cases result with
    | ok height =>
      simp only [stow]
      cases (r.toExecutor.setTime now).tell (.fastForward (height.getD 0)) <;> rfl
    | error cause => rfl
  | _ => rfl

lemma blockAdded_stow (result : Except PipelineError Unit) :
    (r.stow inbox).blockAdded time result = (r.blockAdded time result).map (·.stow inbox) := by
  unfold blockAdded
  rw [stage_stow]
  cases hstage : r.stage with
  | adding f timestamp =>
    cases result with
    | ok reply => exact fetch_stow (r := r.modify (·.emit (.count .fastSyncedBlock))) _
    | error cause =>
      by_cases hclosed : cause.isClosed
      · simp only [hclosed, if_true]
        rfl
      · simp only [hclosed]
        rfl
  | _ => rfl

lemma resume_stow (a : Answer Task) :
    (r.stow inbox).resume now time a = (r.resume now time a).map (·.stow inbox) := by
  obtain ⟨t, result⟩ := a
  cases t with
  | chainHeight => exact heightRead_stow result
  | fastAdd b => exact blockAdded_stow result
  | _ => rfl

lemma ownAnswer_stow : (r.stow inbox).ownAnswer? =
    r.ownAnswer?.map fun answer => (answer.1, answer.2.stow inbox) := by
  unfold ownAnswer?
  simp only [stow, Option.map_map]
  rfl

lemma inbox_of_unreceived (hr : r.received? (.turn now time rung) = none)
    (hl : r.stage.listens = true) (hs : ¬r.shutdown) : r.inbox = [] := by
  by_contra hne
  obtain ⟨mail, inbox, hi⟩ := List.exists_cons_of_ne_nil hne
  rw [received_turn_iff.mpr ⟨⟨hl, hs⟩, hi⟩] at hr
  cases hr

/-- Without a message to take up, a turn is the same whatever the inbox holds. -/
lemma turn_stow (hr : r.received? (.turn now time rung) = none) (hi : r.inbox = [] → inbox = []) :
    (r.stow inbox).turn now time rung =
      (r.turn now time rung).map (Option.map (·.stow inbox)) := by
  unfold turn
  simp only [stage_stow]
  cases hstage : r.stage with
  | ready =>
    by_cases hshut : r.shutdown
    · simp only [shutdown_stow, hshut, if_true]
      rfl
    have hempty := inbox_of_unreceived hr (by rw [hstage]; rfl) hshut
    cases hi hempty
    simp only [shutdown_stow, hshut, inbox_stow, hempty, inboxOpen_stow, nextTick_stow, onTick_stow]
    by_cases hopen : r.inboxOpen
    · by_cases hdue : r.nextTick.reached rung
      · simp only [hopen, hdue, not_true, if_true, if_false]
        cases r.onTick now time <;> rfl
      · simp only [hopen, hdue]
        rfl
    · simp only [hopen]
      rfl
  | fetching f deadline =>
    by_cases hshut : r.shutdown
    · simp only [shutdown_stow, hshut, if_true]
      rfl
    have hempty := inbox_of_unreceived hr (by rw [hstage]; rfl) hshut
    cases hi hempty
    simp only [shutdown_stow, hshut, inbox_stow, hempty, inboxOpen_stow, modify_stow, fetch_stow]
    by_cases hopen : r.inboxOpen
    · by_cases hdue : deadline.reached rung
      · simp only [hopen, hdue, not_true, if_true, if_false]
        cases (r.modify (·.note .fastSyncTimedOut)).fetch { f with failures := f.failures + 1 } time
          <;> rfl
      · simp only [hopen, hdue]
        rfl
    · simp only [hopen]
      rfl
  | pausing | closing =>
    by_cases hbusy : r.busy
    · simp only [toValidator_stow, hbusy, if_true]
      rfl
    · simp only [toValidator_stow, hbusy]
      rfl
  | stopping =>
    by_cases hexited : r.pipeline.exited
    · simp only [toValidator_stow, hexited, if_true]
      rfl
    · simp only [toValidator_stow, hexited]
      rfl
  | _ =>
    simp only [ownAnswer_stow]
    cases r.ownAnswer? with
    | none => rfl
    | some answer =>
      simp only [Option.map_some, resume_stow]
      cases answer.2.resume now time answer.1 <;> rfl

lemma step_stow (hm : ∀ sender message, e ≠ .mail sender message)
    (ht : ∀ now time rung, e = .turn now time rung →
      r.received? e = none ∧ (r.inbox = [] → inbox = [])) :
    (r.stow inbox).step e = (r.step e).map (·.stow inbox) := by
  cases e with
  | message now sender message => exact handle_stow
  | mail sender message => exact absurd rfl (hm sender message)
  | turn now time rung =>
    obtain ⟨hr, hi⟩ := ht now time rung rfl
    simp only [step, turn_stow hr hi]
    cases r.turn now time rung with
    | error fault => rfl
    | ok taken => cases taken <;> rfl
  | tick now =>
    simp only [step, toValidator_stow]
    cases r.toValidator.tick now <;> rfl
  | revolt =>
    simp only [step, toValidator_stow]
    cases r.toExecutor.tell .revolt <;> rfl
  | finish now index =>
    simp only [step, toValidator_stow]
    cases r.answers[index]? with
    | none => rfl
    | some a =>
      simp only
      cases { r.toExecutor with answers := r.answers.eraseIdx index }.finish now a <;> rfl
  | _ => rfl

/-- Where no mail comes in and none is taken up, it does not matter which mail there is. -/
lemma next_stow (hm : ∀ sender message, e ≠ .mail sender message)
    (ht : ∀ now time rung, e = .turn now time rung →
      r.received? e = none ∧ (r.inbox = [] → inbox = [])) :
    (r.stow inbox).next e = (r.next e).stow inbox := by
  have hstep : ({ r with effects := [] }.stow inbox).step e = _ := step_stow hm ht
  have hquiet : { r.stow inbox with effects := [] } = { r with effects := [] }.stow inbox := rfl
  unfold next
  rw [hquiet, hstep]
  cases { r with effects := [] }.step e <;> rfl

lemma inbox_next (hm : ∀ sender message, e ≠ .mail sender message)
    (ht : ∀ now time rung, e = .turn now time rung → r.received? e = none) :
    (r.next e).inbox = r.inbox := by
  have hsame : (r.stow r.inbox).next e = _ :=
    next_stow hm fun now time rung he => ⟨ht now time rung he, id⟩
  have hinbox := congrArg Runner.inbox hsame
  exact hinbox

lemma inbox_of_takeUp {mail : ℕ × Message} (h : r.takeUp now mail = .ok r') :
    r'.inbox = r.inbox := by
  have hsame : (r.stow r.inbox).takeUp now mail = _ := takeUp_stow
  change r.takeUp now mail = _ at hsame
  rw [h] at hsame
  have hinbox := congrArg Runner.inbox (Except.ok.inj hsame)
  exact hinbox

/-! ### Runs without strangers -/

/-- Whether a happening brings nothing from a stranger. -/
def heeds (r : Runner n) : Happening → Bool
  | .mail sender _ => IsPeer r.manager.me sender
  | e => (r.received? e).all fun taken => IsPeer r.manager.me taken.1.1

lemma heeds_eq (hm : ∀ sender message, e ≠ .mail sender message) :
    r.heeds e = (r.received? e).all fun taken => IsPeer r.manager.me taken.1.1 := by
  cases e with
  | mail sender message => exact absurd rfl (hm sender message)
  | _ => rfl

lemma peerMail_cons_of_peer {me : Fin n} {mail : ℕ × Message} (h : IsPeer me mail.1) :
    peerMail me (mail :: inbox) = mail :: peerMail me inbox :=
  List.filter_cons_of_pos (decide_eq_true h)

lemma peerMail_cons_of_stranger {me : Fin n} {mail : ℕ × Message} (h : ¬IsPeer me mail.1) :
    peerMail me (mail :: inbox) = peerMail me inbox :=
  List.filter_cons_of_neg (by simpa using h)

lemma next_turn_peerMail {mail : ℕ × Message}
    (hr : r.received? (.turn now time rung) = some (mail, inbox))
    (hp : IsPeer r.manager.me mail.1) :
    (r.stow (peerMail r.manager.me r.inbox)).next (.turn now time rung) =
      (r.next (.turn now time rung)).stow
        (peerMail r.manager.me (r.next (.turn now time rung)).inbox) := by
  obtain ⟨hl, hi⟩ := received_turn_iff.mp hr
  have hr' : (r.stow (peerMail r.manager.me r.inbox)).received? (.turn now time rung) =
      some (mail, peerMail r.manager.me inbox) :=
    received_turn_iff.mpr ⟨hl, by rw [inbox_stow, hi, peerMail_cons_of_peer hp]⟩
  have htaken : ({ r with inbox, effects := [] }.stow (peerMail r.manager.me inbox)).takeUp now
      mail = _ := takeUp_stow
  have hnext := next_turn_of_received hr'
  change _ = match ({ r with inbox, effects := [] }.stow (peerMail r.manager.me inbox)).takeUp now
    mail with | .ok r' => r' | .error _ => _ at hnext
  rw [hnext, htaken, next_turn_of_received hr]
  cases ht : { r with inbox, effects := [] }.takeUp now mail with
  | ok r' =>
    have hinbox := inbox_of_takeUp ht
    simp only [Except.map, hinbox]
  | error fault => rfl

/-- With and without the mail of strangers, what a validator heeds does the same. -/
lemma next_peerMail (hk : r.heeds e = true) :
    (r.stow (peerMail r.manager.me r.inbox)).next e =
      (r.next e).stow (peerMail r.manager.me (r.next e).inbox) := by
  by_cases hturn : ∃ now time rung taken, e = .turn now time rung ∧ r.received? e = some taken
  · obtain ⟨now, time, rung, ⟨mail, inbox⟩, rfl, hr⟩ := hturn
    rw [heeds_eq (by simp), hr] at hk
    exact next_turn_peerMail hr (of_decide_eq_true hk)
  have hnone : ∀ now time rung, e = .turn now time rung → r.received? e = none :=
    fun now time rung he => Option.eq_none_iff_forall_ne_some.mpr fun taken ht =>
      hturn ⟨now, time, rung, taken, he, ht⟩
  by_cases hmail : ∃ sender message, e = .mail sender message
  · obtain ⟨sender, message, rfl⟩ := hmail
    have hp : IsPeer r.manager.me sender := of_decide_eq_true hk
    have happend : peerMail r.manager.me (r.inbox ++ [(sender, message)]) =
        peerMail r.manager.me r.inbox ++ [(sender, message)] := by
      rw [peerMail, List.filter_append]
      exact congrArg _ (peerMail_cons_of_peer hp)
    exact congrArg (r.next (.mail sender message)).stow happend.symm
  · have hm : ∀ sender message, e ≠ .mail sender message := fun sender message he =>
      hmail ⟨sender, message, he⟩
    rw [inbox_next hm hnone]
    refine next_stow hm fun now time rung he => ⟨hnone now time rung he, fun hi => ?_⟩
    rw [hi]
    rfl

lemma inbox_of_received {mail : ℕ × Message} (hr : r.received? e = some (mail, inbox)) :
    r.inbox = inbox ∨ r.inbox = mail :: inbox := by
  cases e with
  | message => cases hr; exact .inl rfl
  | turn => exact .inr (received_turn_iff.mp hr).2
  | _ => cases hr

/-- What is not heeded leaves no trace but for the mail of strangers. -/
lemma next_of_unheeded (hk : ¬r.heeds e = true)
    (hs : ∀ sender ∈ r.suppliedBy? e, IsPeer r.manager.me sender) :
    ∃ inbox effects, r.next e = { r with inbox, effects } ∧
      peerMail r.manager.me inbox = peerMail r.manager.me r.inbox ∧
      effects.filterMap Effect.sent? = [] := by
  by_cases hmail : ∃ sender message, e = .mail sender message
  · obtain ⟨sender, message, rfl⟩ := hmail
    have hp : ¬IsPeer r.manager.me sender := fun hp => hk (decide_eq_true hp)
    refine ⟨_, _, rfl, ?_, rfl⟩
    rw [peerMail, List.filter_append]
    exact (congrArg _ (peerMail_cons_of_stranger hp)).trans (List.append_nil _)
  rw [heeds_eq fun sender message he => hmail ⟨sender, message, he⟩] at hk
  cases hr : r.received? e with
  | none =>
    rw [hr] at hk
    exact absurd rfl hk
  | some taken =>
    obtain ⟨⟨sender, message⟩, inbox⟩ := taken
    rw [hr] at hk
    have hp : ¬IsPeer r.manager.me sender := fun hp => hk (decide_eq_true hp)
    have ha : r.suppliedBy? e = none := by
      refine Option.eq_none_iff_forall_ne_some.mpr fun supplier hsupplied => ?_
      obtain ⟨_, _, hr', -⟩ := received_of_supplied hsupplied
      cases hr.symm.trans hr'
      exact hp (hs sender hsupplied)
    refine ⟨inbox, _, next_of_stranger hr hp ha, ?_, rfl⟩
    rcases inbox_of_received hr with hi | hi
    · rw [hi]
    · rw [hi, peerMail_cons_of_stranger hp]

lemma me_next (r : Runner n) (e : Happening) : (r.next e).manager.me = r.manager.me := by
  have hstirs :=
    (stirs_next (e := e) (attentive_true r) (fun _ _ _ _ => trivial) fun _ => trivial).1
  exact hstirs.beats.invariant (P := fun x => x.manager.me = r.manager.me)
    (fun _ _ hbeat hx => hbeat.me_eq.trans hx) rfl

/-- The validator at the end of a run. -/
def after (r : Runner n) (es : List Happening) : Runner n := es.foldl next r

/-- The messages that are sent in the course of a run. -/
def sent (r : Runner n) : List Happening → List (Option ℕ × Message)
  | [] => []
  | e :: es => (r.next e).effects.reverse.filterMap Effect.sent? ++ (r.next e).sent es

/-- Whether the blocks that supply fast syncs come from peers. -/
def suppliedByPeers (r : Runner n) : List Happening → Bool
  | [] => true
  | e :: es =>
    (r.suppliedBy? e).all (fun sender => IsPeer r.manager.me sender) &&
      (r.next e).suppliedByPeers es

/-- The happenings that bring nothing from strangers. -/
def heeded (r : Runner n) : List Happening → List Happening
  | [] => []
  | e :: es => if r.heeds e then e :: (r.next e).heeded es else (r.next e).heeded es

/-- The validator `r'` is `r` without the mail of strangers, whatever either has just done. -/
def Mirrors (r r' : Runner n) : Prop :=
  ∃ effects, r' = { r with inbox := peerMail r.manager.me r.inbox, effects }

/-- A run is the run without what strangers do in it. -/
theorem mirrors_heeded {es : List Happening} (hr : r.Mirrors r')
    (hs : r.suppliedByPeers es = true) :
    (r.after es).Mirrors (r'.after (r.heeded es)) ∧ r'.sent (r.heeded es) = r.sent es := by
  -- Both runs go on from validators that may differ in what they have just done, so the induction
  -- is over any two that mirror each other.
  induction es generalizing r r' with
  | nil => exact ⟨hr, rfl⟩
  | cons e es ih =>
    obtain ⟨hsupplied, hlater⟩ := (Bool.and_eq_true ..).mp hs
    obtain ⟨effects, rfl⟩ := hr
    by_cases hk : r.heeds e = true
    · rw [heeded, if_pos hk]
      have hnext : ({ r with inbox := peerMail r.manager.me r.inbox, effects } : Runner n).next e =
          (r.next e).stow (peerMail r.manager.me (r.next e).inbox) := next_peerMail hk
      have hmirrors : (r.next e).Mirrors
          ((r.next e).stow (peerMail r.manager.me (r.next e).inbox)) :=
        ⟨(r.next e).effects, by rw [me_next]; rfl⟩
      obtain ⟨hafter, hsent⟩ := ih hmirrors hlater
      simp only [after, List.foldl_cons, sent, hnext]
      exact ⟨hafter, congrArg _ hsent⟩
    · rw [heeded, if_neg hk]
      have hpeers : ∀ sender ∈ r.suppliedBy? e, IsPeer r.manager.me sender := fun sender hs => by
        rw [hs] at hsupplied
        exact of_decide_eq_true hsupplied
      obtain ⟨inbox, effects', hnext, hmail, hsilent⟩ := next_of_unheeded hk hpeers
      have hmirrors : (r.next e).Mirrors
          { r with inbox := peerMail r.manager.me r.inbox, effects } := by
        rw [hnext, ← hmail]
        exact ⟨effects, rfl⟩
      obtain ⟨hafter, hsent⟩ := ih hmirrors hlater
      refine ⟨hafter, hsent.trans ?_⟩
      rw [sent, hnext, List.filterMap_reverse, hsilent]
      rfl

lemma me_of_mem_trail {es : List Happening} : ∀ x ∈ r.trail es, x.manager.me = r.manager.me := by
  induction es generalizing r with
  | nil =>
    intro x hx
    rw [List.mem_singleton.mp hx]
  | cons e es ih =>
    intro x hx
    rcases mem_trail_cons.mp hx with rfl | hx
    · rfl
    · exact (ih x hx).trans (me_next r e)

lemma sublist_heeded (r : Runner n) (es : List Happening) : (r.heeded es).Sublist es := by
  induction es generalizing r with
  | nil => exact .slnil
  | cons e es ih =>
    unfold heeded
    split
    · exact (ih _).cons_cons e
    · exact (ih _).cons e

lemma peer_of_heeds (hk : r.heeds e = true) (he : e.sender? = some sender) :
    IsPeer r.manager.me sender := by
  cases e with
  | message now =>
    cases he
    exact of_decide_eq_true hk
  | mail =>
    cases he
    exact of_decide_eq_true hk
  | _ => cases he

lemma peer_of_mem_heeded {es : List Happening} (h : e ∈ r.heeded es)
    (he : e.sender? = some sender) : IsPeer r.manager.me sender := by
  induction es generalizing r with
  | nil => cases h
  | cons e' es ih =>
    unfold heeded at h
    split at h
    · rename_i hk
      rcases List.mem_cons.mp h with rfl | h
      · exact peer_of_heeds hk he
      · exact me_next r e' ▸ ih h
    · exact me_next r e' ▸ ih h

/-- Whatever a validator has come to, in consensus and during a fast sync: a message that does not
come from a peer changes nothing and leaves no more than a note and two counts, unless it is the
block that a fast sync asked for, which is taken whoever sends it. As long as such blocks come from
peers only, a validator does and sends what it would have without the messages of strangers. -/
theorem strangers_are_inert {v : Validator n} {time : Duration} {es : List Happening} :
    (∀ r ∈ (start v time).trail es, ∀ e sender message inbox,
      r.received? e = some ((sender, message), inbox) → ¬IsPeer v.manager.me sender →
        r.suppliedBy? e = none → r.next e = { r with inbox, effects := message.dismissal }) ∧
    (∀ r ∈ (start v time).trail es, ∀ e sender other, r.suppliedBy? e = some sender →
      { r with inbox := r.inbox.modifyHead fun mail => (other, mail.2) }.next e = r.next e) ∧
    ((start v time).suppliedByPeers es = true →
      let heeded := (start v time).heeded es
      heeded.Sublist es ∧
        (∀ e ∈ heeded, ∀ sender, e.sender? = some sender → IsPeer v.manager.me sender) ∧
        (start v time).sent heeded = (start v time).sent es ∧
        ∃ inbox effects, (start v time).after heeded =
          { (start v time).after es with inbox, effects }) := by
  refine ⟨fun r hr e sender message inbox hreceived hs ha => ?dropped,
    fun r _ e sender other h => next_of_supplied h other, fun hpeers => ?unheeded⟩
  case dropped =>
    have hme : r.manager.me = v.manager.me := me_of_mem_trail r hr
    rw [← hme] at hs
    exact next_of_stranger hreceived hs ha
  case unheeded =>
    have hmirrors : (start v time).Mirrors (start v time) := ⟨_, rfl⟩
    obtain ⟨⟨effects, hafter⟩, hsent⟩ := mirrors_heeded hmirrors hpeers
    exact ⟨sublist_heeded _ es, fun e he sender hs => peer_of_mem_heeded he hs, hsent, _, _, hafter⟩

/-- Strangers send a status, a question and, during a fast sync, a block. -/
def strayRun : List Happening :=
  let b := firstBlock 2000
  let answer : SealedBlock := ⟨b, ⟨[1, 2, 3].map (signatureBy · b)⟩⟩
  [.mail 4 (.status ⟨9, 9, 0, .waitBlock, none, false⟩), waking 0,
    .message .zero 0 (.getBlockAtHeight 1)] ++ startingSync ++
    [.mail 9 (.completeBlock answer 2), waking 0, .mail 1 (.completeBlock answer 1), waking 0,
      .work .zero]

/-- The strangers are ignored, and the fast sync goes on with the block of a peer. -/
theorem strangers_are_inert_during_fast_sync :
    let r := start exampleValidator .zero
    let heeded := r.heeded strayRun
    heeded.length + 5 = strayRun.length ∧ (r.after strayRun).engine.chain.height = 1 ∧
      r.sent heeded = r.sent strayRun ∧ (r.after heeded).engine.chain.height = 1 := by
  intro r heeded
  have hrun : heeded.length + 5 = strayRun.length ∧ r.suppliedByPeers strayRun = true ∧
      (r.after strayRun).engine.chain.height = 1 := by decide +kernel
  obtain ⟨hlength, hpeers, hheight⟩ := hrun
  obtain ⟨-, -, hheeded⟩ := @strangers_are_inert 4 exampleValidator .zero strayRun
  obtain ⟨-, -, hsent, inbox, effects, hafter⟩ := hheeded hpeers
  refine ⟨hlength, hheight, hsent, ?_⟩
  generalize (start exampleValidator .zero).after strayRun = x at hafter hheight
  rw [hafter]
  exact hheight

/-- A stranger supplies a fast sync. -/
def forgedRun : List Happening :=
  let b := firstBlock 2000
  startingSync ++ [.mail 9 (.completeBlock ⟨b, ⟨[1, 2, 3].map (signatureBy · b)⟩⟩ 1)]

/-- The block of a stranger is not counted as invalid: it is handed to the pipeline, and comes to
the chain. -/
theorem stranger_supplies_fast_sync :
    let x := (start exampleValidator .zero).after forgedRun
    let y := x.next (waking 0)
    (x.received? (waking 0)).map (·.1.1) = some 9 ∧ ¬IsPeer x.manager.me 9 ∧
      .count .invalidMessage ∉ y.effects ∧
      (y.pipeline.queue.length, x.pipeline.queue.length) = (1, 0) ∧
      ((y.next (.work .zero)).engine.chain.height, x.engine.chain.height) = (1, 0) := by
  decide +kernel

end Runner

end Conclave

import Conclave.Proofs.PipelineWork

/-!
# Applying the results of tasks

An executor that applies an answer stays aligned, whichever of its answers it takes first. The end
of an operation puts a new block in hand or leads to the next height; the rest leaves the manager
where it stands.
-/

namespace Conclave.Executor

open Manager (PreparedOn Gentle)

variable {n : ℕ} {x y z : Executor n} {a : Answer Task}

/-! ### Signatures that may be sent -/

/-- The reference is to the block in hand, or to one of the chain. -/
def Backs (x : Executor n) (rid : Rid) : Prop :=
  (x.manager.own.phase ≠ .waitBlock ∧ x.manager.own.rid = some rid) ∨
    ∃ height, x.chain.Has height rid

/-- `y` is aligned and bound to what `x` was bound to, and has signed only what backs it. -/
structure Goes (x y : Executor n) : Prop where
  aligned : y.Aligned
  bound : ∀ height rid, x.Bound height rid → y.Bound height rid
  said : ∀ rid ∈ y.said, rid ∈ x.said ∨ y.Backs rid

lemma Leads.goes (h : Leads x y) : Goes x y := by
  refine ⟨h.aligned, h.bound, fun rid hr => .inl ?_⟩
  rw [← h.said]
  exact hr

lemma Leads.then_goes (h : Leads x y) (h' : Goes y z) : Goes x z := by
  refine ⟨h'.aligned, fun k r hb => h'.bound k r (h.bound k r hb), fun rid hr => ?_⟩
  rw [← h.said]
  exact h'.said rid hr

lemma calm_send (x : Executor n) {receiver : Option ℕ} {message : Message}
    (h : (Effect.send receiver message).signs? = none) :
    Calm x (x.emit (.send receiver message)) :=
  calm_books (List.filterMap_cons_none h)

lemma Aligned.sign (h : x.Aligned) {rid : Rid} (hb : x.Backs rid) (receiver : ℕ) (s : Signature) :
    Goes x (x.send receiver (.blockSignature rid s)) where
  aligned := h.withEffects _
  bound _ _ hbound := hbound
  said r hr := by
    have hsaid : (x.send receiver (.blockSignature rid s)).said = rid :: x.said := rfl
    rw [hsaid] at hr
    rcases List.mem_cons.mp hr with rfl | hr
    · exact .inr hb
    · exact .inl hr

lemma tell_eq_ok {input : Manager.Input} {r : Executor n × Bool} (h : x.tell input = .ok r) :
    r = ({ x with manager := (x.manager.respond input).1 }, (x.manager.respond input).2) ∧
      (x.manager.respond input).1.own.inRange = true := by
  unfold tell Manager.handle at h
  simp only at h
  split at h
  · rename_i hin
    cases h
    exact ⟨rfl, hin⟩
  · cases h

lemma Aligned.told (h : x.Aligned) {input : Manager.Input} (hc : input.climbs = false)
    (ht : input.takes = false) {r : Executor n × Bool} (htell : x.tell input = .ok r) :
    Leads x r.1 := by
  have hgentle := h.coherent.gentle_respond input hc ht
  obtain ⟨rfl, -⟩ := tell_eq_ok htell
  exact (calm_manager hgentle).leads h

lemma height_le_of_inRange {s : NodeStatus} (h : s.inRange = true) :
    s.height ≤ Word.maxUnsigned := by
  unfold NodeStatus.inRange at h
  exact (of_decide_eq_true h).1

/-! ### The end of an operation -/

/-- The answer `a` is taken out, and no operation is under way any more. -/
structure Concluded (x y : Executor n) (a : Answer Task) : Prop where
  answers : x.answers.Perm (a :: y.answers)
  pipeline : y.pipeline = x.pipeline
  intent : y.intent = x.intent
  idle : y.busy = false
  said : y.said = x.said

namespace Concluded

lemma chain_eq (hc : Concluded x y a) : y.chain = x.chain :=
  congrArg (·.worker.engine.chain) hc.pipeline

/-- An operation whose answer waits is the only one. -/
lemma alone (hc : Concluded x y a) (h : x.Aligned) (hop : a.task.isOperation = true) :
    x.busy = true ∧ y.pipeline.queue.countP Task.isOperation = 0 ∧
      y.answers.countP (fun b => b.task.isOperation) = 0 := by
  have hx := h.count
  rw [hc.answers.countP_eq, List.countP_cons, if_pos hop] at hx
  rw [hc.pipeline]
  have hle : x.busy.toNat ≤ 1 := Bool.toNat_le _
  have hb : x.busy.toNat = 1 := by omega
  refine ⟨by simpa using hb, by omega, by omega⟩

/-- At the end of an operation it is the manager that has to be put right. -/
lemma leads (hc : Concluded x y a) (h : x.Aligned) (hop : a.task.isOperation = true)
    (hcoherent : y.manager.Coherent) (hrange : y.manager.own.height ≤ Word.maxUnsigned)
    (hlevel : y.Level)
    (hheld : y.manager.own.phase ≠ .waitBlock →
      ∃ b, y.block = some b ∧ y.manager.own.rid = some b.rid ∧ b.height = y.manager.own.height)
    (hpending : y.manager.own.phase ≠ .waitBlock →
      ∀ p, x.pendingBlock = some p → y.manager.own.rid = some p.rid)
    (hbound : ∀ rid, x.manager.PreparedOn rid → y.Bound x.manager.own.height rid) : Leads x y where
  aligned := by
    obtain ⟨hbusy, hqueue, hanswers⟩ := hc.alone h hop
    refine {
      coherent := hcoherent
      inRange := hrange
      count := ?count
      level := fun _ => hlevel
      queued := ?queued
      answered := ?answered
      noFastAdd := ?noFastAdd
      held := hheld
      pending := ?pending
      asking := ?asking
      catchingUp := ?catchingUp
      sound := ?sound }
    case count =>
      rw [hqueue, hanswers, hc.idle]
      rfl
    case queued =>
      intro t ht htop
      exact absurd htop (List.countP_eq_zero.mp hqueue t ht)
    case answered =>
      intro b hb
      have hold : b ∈ x.answers := hc.answers.mem_iff.mpr (List.mem_cons_of_mem _ hb)
      have hno : b.task.isOperation = false := by simpa using List.countP_eq_zero.mp hanswers b hb
      refine Answered.outcome_of_has hno (fun k r hk => ?_) (h.answered b hold)
      rw [hc.chain_eq]
      exact hk
    case noFastAdd =>
      rw [hc.pipeline]
      exact h.noFastAdd
    case pending =>
      have hsame : y.pendingBlock = x.pendingBlock :=
        congrArg (·.worker.builder.map Builder.block) hc.pipeline
      rw [hsame]
      exact hpending
    case asking =>
      intro rid hi
      rw [hc.intent] at hi
      rw [(h.asking rid hi).1] at hbusy
      cases hbusy
    case catchingUp =>
      intro height hi
      rw [hc.intent] at hi
      rw [(h.catchingUp height hi).1] at hbusy
      cases hbusy
    case sound =>
      rw [hc.chain_eq]
      exact h.sound
  bound height rid hb := by
    rcases hb with ⟨rfl, hp⟩ | hhas
    · exact hbound rid hp
    · right
      rw [hc.chain_eq]
      exact hhas
  said := hc.said

lemma leads_gentle (hc : Concluded x y a) (h : x.Aligned) (hop : a.task.isOperation = true)
    (hg : Gentle x.manager y.manager) (hblock : y.block = x.block) (hlevel : x.Level) :
    Leads x y := by
  refine hc.leads h hop (hg.coherent h.coherent) ?_ ?_ (fun hp => ?_) (fun hp p hy => ?_)
    fun rid hp => .inl ⟨hg.height, hg.lock rid hp⟩
  · rw [hg.height]
    exact h.inRange
  · unfold Level
    rw [hg.height, hc.chain_eq]
    exact hlevel
  · obtain ⟨hp', hr⟩ := hg.steady hp
    rw [hblock, hr, hg.height]
    exact h.held hp'
  · obtain ⟨hp', hr⟩ := hg.steady hp
    rw [hr]
    exact h.pending hp' p hy

end Concluded

lemma Leads.release (h : Leads x { y with busy := false }) (now : Duration) :
    Leads x (y.release now) := by
  unfold Executor.release
  simp only
  split
  · have hcalm : Calm { y with busy := false } { y with busy := false, awaited := false } :=
      calm_books rfl
    exact h.trans (hcalm.leads h.aligned)
  · exact h.trans (h.aligned.update now)

section Operations

variable {answers : List (Answer Task)} {now : Duration}

lemma fail_eq (x : Executor n) (now : Duration) (cause : PipelineError) (t : Task) :
    ∃ policy effects, x.fail now cause t = { x with policy, effects } ∧
      effects.filterMap Effect.signs? = x.said := by
  cases t with
  | build =>
    simp only [fail]
    split
    · exact ⟨_, _, rfl, rfl⟩
    · exact ⟨_, _, rfl, rfl⟩
  | load | add | commit | verify | serveBlock | serveSignature => exact ⟨_, _, rfl, rfl⟩
  | chainHeight | fastAdd => exact ⟨x.policy, x.effects, rfl, rfl⟩

lemma calm_fail (x : Executor n) (now : Duration) (cause : PipelineError) (t : Task) :
    Calm x (x.fail now cause t) := by
  obtain ⟨policy, effects, hfail, hsaid⟩ := fail_eq x now cause t
  rw [hfail]
  exact calm_books hsaid

lemma Aligned.failed (h : x.Aligned) {t : Task} {cause : PipelineError}
    (hop : t.isOperation = true) (hperm : x.answers.Perm (⟨t, .error cause⟩ :: answers)) :
    Leads x { ({ x with answers }.setTime now).fail now cause t with busy := false } := by
  obtain ⟨policy, effects, hfail, hsaid⟩ := fail_eq ({ x with answers }.setTime now) now cause t
  rw [hfail]
  have hout : x.Outcome ⟨t, .error cause⟩ := h.answered _ (hperm.mem_iff.mpr List.mem_cons_self)
  refine Concluded.leads_gentle ⟨hperm, rfl, rfl, rfl, hsaid⟩ h hop (Manager.gentle_setTime _ now)
    rfl (hout hop).1

/-- A block of the next height that was built or loaded comes to hand, or is turned down. -/
lemma Aligned.took (h : x.Aligned) (hop : a.task.isOperation = true)
    (hperm : x.answers.Perm (a :: answers)) {b : Block} {s : Signature} {input : Manager.Input}
    (hi : input = .received b.rid s ∨ input = .built b.rid s)
    (hstaged : x.Staged b) {r : Executor n × Bool}
    (htell : ({ x with answers }.setTime now).tell input = .ok r) :
    Leads x { (if r.2 then r.1.hold b else r.1) with busy := false } := by
  have htime := Manager.gentle_setTime x.manager now
  have hcoherent := (htime.coherent h.coherent).respond input
  have hclimbs : input.climbs = false := by rcases hi with rfl | rfl <;> rfl
  have hsame := Manager.height_respond (m := x.manager.setTime now) hclimbs
  obtain ⟨rfl, -⟩ := tell_eq_ok htell
  rcases Manager.respond_block (x.manager.setTime now) hi with hm | ⟨cause, hm⟩
  · have heq : (({ x with answers }.setTime now).manager.respond input) = _ := hm
    rw [hm] at hcoherent hsame
    rw [heq]
    refine Concluded.leads ⟨hperm, rfl, rfl, rfl, rfl⟩ h hop hcoherent ?_ ?_ (fun hp => ?_)
      (fun hp p hy => ?_) fun rid hp => ?_
    · change (Manager.recompute _).own.height ≤ _
      rw [hsame]
      exact h.inRange
    · change (Manager.recompute _).own.height = _
      rw [hsame]
      exact hstaged.level
    · refine ⟨b, rfl, Manager.rid_of_taken hp, ?_⟩
      change _ = (Manager.recompute _).own.height
      rw [hsame, hstaged.height]
      exact hstaged.level.symm
    · rw [hstaged.pending p hy]
      exact Manager.rid_of_taken hp
    · have hwaits := hstaged.waits
      rw [hp.1] at hwaits
      cases hwaits
  · have heq : (({ x with answers }.setTime now).manager.respond input) = _ := hm
    rw [hm] at hcoherent
    rw [heq]
    have hreject : Gentle x.manager ((x.manager.setTime now).reject cause) :=
      ⟨rfl, fun hp => ⟨hp, rfl⟩, fun _ hp => hp, fun _ => hcoherent⟩
    exact Concluded.leads_gentle ⟨hperm, rfl, rfl, rfl, rfl⟩ h hop hreject rfl hstaged.level

/-- After a block was appended to the chain, the manager goes to the next height. -/
lemma Aligned.passed (h : x.Aligned) (hop : a.task.isOperation = true)
    (hchain : x.chain.height = x.manager.own.height)
    (hbound : ∀ rid, x.manager.PreparedOn rid → x.chain.Has x.manager.own.height rid)
    (hc : Concluded x y a) (hm : y.manager = (x.manager.setTime now).advanceHeight)
    (hrange : y.manager.own.inRange = true) : Leads x y := by
  have hwaits := Manager.waits_advanceHeight (x.manager.setTime now)
  have hheight := Manager.height_advanceHeight (x.manager.setTime now)
  rw [← hm] at hwaits hheight
  refine hc.leads h hop ?_ (height_le_of_inRange hrange) ?_ (fun hp => absurd hwaits hp)
    (fun hp => absurd hwaits hp) fun rid hp => .inr ?_
  · rw [hm]
    exact Manager.coherent_advanceHeight _
  · unfold Level
    rw [hheight, hc.chain_eq, hchain]
    rfl
  · rw [hc.chain_eq]
    exact hbound rid hp

/-- The success of an operation, before the operation is over. -/
lemma Aligned.succeeded (h : x.Aligned) {t : Task} {reply : t.job.Reply}
    (hop : t.isOperation = true) (hperm : x.answers.Perm (⟨t, .ok reply⟩ :: answers))
    (hs : ({ x with answers }.setTime now).succeed now t reply = .ok y) :
    Leads x { y with busy := false } := by
  have hout : x.Reached t reply :=
    h.answered ⟨t, .ok reply⟩ (hperm.mem_iff.mpr List.mem_cons_self)
  cases t with
  | build =>
    obtain ⟨b, s⟩ := reply
    obtain ⟨r, htell, hy⟩ := Manager.exists_of_bind_eq_ok hs
    cases hy
    exact h.took rfl hperm (.inr rfl) hout htell
  | load b =>
    obtain ⟨r, htell, hy⟩ := Manager.exists_of_bind_eq_ok hs
    cases hy
    exact h.took rfl hperm (.inl rfl) hout htell
  | add b height =>
    obtain ⟨hwaits, rfl, hchain⟩ := hout
    simp only [succeed] at hs
    split at hs
    · cases hs
    rename_i hne
    obtain ⟨r, htell, hy⟩ := Manager.exists_of_bind_eq_ok hs
    obtain ⟨rfl, hrange⟩ := tell_eq_ok htell
    have hlt : (x.manager.setTime now).own.height < Word.maxUnsigned :=
      lt_of_le_of_ne h.inRange hne
    have happly : (x.manager.setTime now).respond (.heightAdvance (x.manager.own.height + 1)) =
      ((x.manager.setTime now).advanceHeight, true) := Manager.respond_heightAdvance hlt
    have hm : ({ x with answers }.setTime now).manager.respond _ = _ := happly
    rw [hm] at hrange hy
    cases hy
    refine h.passed rfl hchain (fun rid hp => ?_) ⟨hperm, rfl, rfl, rfl, rfl⟩ rfl hrange
    rw [hp.1] at hwaits
    cases hwaits
  | commit b signatures =>
    obtain ⟨hprepared, hchain, hhas⟩ := hout
    simp only [succeed] at hs
    obtain ⟨r, htell, hy⟩ := Manager.exists_of_bind_eq_ok hs
    obtain ⟨rfl, hrange⟩ := tell_eq_ok htell
    have happly : (x.manager.setTime now).respond (.committed b.rid) =
      ((x.manager.setTime now).advanceHeight, true) := Manager.respond_committed hprepared.2
    have hm : (({ x with answers }.setTime now).note .blockCommitted).manager.respond _ = _ :=
      happly
    rw [hm] at hrange hy
    cases hy
    refine h.passed rfl hchain (fun rid hp => ?_) ⟨hperm, rfl, rfl, rfl, rfl⟩ rfl hrange
    have heq : rid = b.rid := Option.some.inj (hp.2.symm.trans hprepared.2)
    rw [heq]
    exact hhas
  | verify | serveBlock | serveSignature | chainHeight | fastAdd => cases hop

lemma Aligned.taken (h : x.Aligned) (hop : a.task.isOperation = false)
    (hperm : x.answers.Perm (a :: answers)) : Leads x { x with answers } := by
  have hfoot : Footing x { x with answers } := ⟨Manager.gentle_refl _, rfl, fun _ hp => hp⟩
  apply hfoot.leads h rfl rfl rfl rfl
  · have hx := h.count
    rw [hperm.countP_eq, List.countP_cons, hop] at hx
    exact hx
  · intro t ht
    exact .inl ht
  · intro b hb
    left
    apply hperm.mem_iff.mpr
    exact List.mem_cons_of_mem _ hb

lemma Aligned.served (h : x.Aligned) {t : Task} {reply : t.job.Reply} (hop : t.isOperation = false)
    (hout : x.Reached t reply) (hs : x.succeed now t reply = .ok y) : Goes x y := by
  cases t with
  | build | load | add | commit => cases hop
  | verify sender rid s =>
    simp only [succeed] at hs
    split at hs
    · obtain ⟨r, htell, hy⟩ := Manager.exists_of_bind_eq_ok hs
      cases hy
      have htime := (calm_setTime x now).leads h
      have htold := htime.trans (htime.aligned.told rfl rfl htell)
      exact (htold.trans (htold.aligned.pump now)).goes
    · cases hs
      exact ((calm_note x _).leads h).goes
  | serveBlock receiver height =>
    simp only [succeed] at hs
    split at hs
    · cases hs
      exact ((calm_send x rfl).leads h).goes
    · cases hs
      exact h.leads.goes
  | serveSignature receiver rid =>
    simp only [succeed] at hs
    split at hs
    · cases hs
      exact h.sign (.inr (hout (by simp))) receiver _
    · cases hs
      exact h.leads.goes
  | chainHeight | fastAdd =>
    cases hs
    exact h.leads.goes

/-- Whichever answer is applied first, the executor stays aligned. -/
theorem Aligned.finish (h : x.Aligned) (hperm : x.answers.Perm (a :: answers))
    (hf : ({ x with answers } : Executor n).finish now a = .ok y) : Goes x y := by
  obtain ⟨t, result⟩ := a
  have hout : x.Outcome ⟨t, result⟩ := h.answered _ (hperm.mem_iff.mpr List.mem_cons_self)
  by_cases hop : t.isOperation = true
  · simp only [Executor.finish, hop, if_true] at hf
    cases result with
    | ok reply =>
      obtain ⟨z, hz, hy⟩ := Manager.exists_of_bind_eq_ok hf
      cases hy
      exact ((h.succeeded hop hperm hz).release now).goes
    | error cause =>
      cases hf
      exact ((h.failed hop hperm).release now).goes
  · have hno : t.isOperation = false := by simpa using hop
    have htaken := h.taken hno hperm
    simp only [Executor.finish, hno, Bool.false_eq_true, if_false] at hf
    cases result with
    | ok reply =>
      obtain ⟨z, hz, hy⟩ := Manager.exists_of_bind_eq_ok hf
      cases hy
      have hkept : Outcome { x with answers } ⟨t, .ok reply⟩ :=
        Answered.outcome_of_has (x := x) hno (fun _ _ hk => hk) hout
      exact htaken.then_goes (htaken.aligned.served hno hkept hz)
    | error cause =>
      cases hf
      exact (htaken.trans ((calm_fail _ now cause t).leads htaken.aligned)).goes
end Operations

end Conclave.Executor

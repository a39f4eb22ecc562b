import Conclave.Proofs.ManagerCoherence

/-!
# Settling

A step is never followed by more than one other, so a recompute that may take three comes to rest
before it is cut off. What is at rest can be read off the recorded statuses, the signatures and the
intent, and every input leaves a manager at rest.
-/

namespace Conclave.Manager

variable {n : ℕ} {m m' x y : Manager n}

/-- Nothing is left to change: the intent is the one that the phase and the records ask for. -/
structure Settled (m : Manager n) : Prop where
  catchingUp : m.own.phase ≠ .prepared → m.behind = true →
    m.intent = .fetchBlockAtHeight m.own.height
  calm : ¬(m.own.phase ≠ .prepared ∧ m.behind = true) →
    ¬(m.own.revolting = true ∧ quorum n ≤ m.revoltVotes)
  waiting : m.own.phase = .waitBlock → m.behind = false → m.intent = m.waitingIntent
  having : m.own.phase = .haveBlock → m.behind = false → m.holders < quorum n
  prepared : m.own.phase = .prepared → m.intent ≠ .commitBlock →
    m.signed < quorum n ∧ ∀ rid, m.own.rid = some rid → m.intent = m.preparedIntent rid

lemma follow_eq_none {intent : Intent} : m.follow intent = none ↔ m.intent = intent := by
  unfold follow
  split <;> simp [*]

/-- The step function stops exactly at the settled managers. -/
theorem step_eq_none_iff : m.step = none ↔ m.Settled := by
  unfold step
  by_cases hb : m.own.phase ≠ .prepared ∧ m.behind = true
  · have hset : m.Settled ↔ m.intent = .fetchBlockAtHeight m.own.height := by
      refine ⟨fun h => h.catchingUp hb.1 hb.2, fun h => ⟨fun _ _ => h, ?_, ?_, ?_, ?_⟩⟩
      · exact fun hnb => (hnb hb).elim
      · exact fun _ hnb => by simp [hnb] at hb
      · exact fun _ hnb => by simp [hnb] at hb
      · exact fun hp => (hb.1 hp).elim
    rw [if_pos hb, hset]
    simp [Intent.isFetchingHeight]
  rw [if_neg hb]
  by_cases hr : m.own.revolting = true ∧ quorum n ≤ m.revoltVotes
  · rw [if_pos hr]
    constructor
    · intro h
      cases h
    · intro h
      exact (h.calm hb hr).elim
  rw [if_neg hr]
  cases hp : m.own.phase with
  | waitBlock =>
    have hnb : m.behind = false := by simpa [hp] using hb
    simp only [follow_eq_none]
    exact ⟨fun h => ⟨by simp [hnb], fun _ => hr, fun _ _ => h, by simp [hp], by simp [hp]⟩,
      fun h => h.waiting hp hnb⟩
  | haveBlock =>
    have hnb : m.behind = false := by simpa [hp] using hb
    constructor
    · intro h
      have hh : m.holders < quorum n := by simpa using h
      exact ⟨by simp [hnb], fun _ => hr, by simp [hp], fun _ _ => hh, by simp [hp]⟩
    · intro h
      simp [h.having hp hnb]
  | prepared =>
    constructor
    · intro h
      refine ⟨by simp [hp], fun _ => hr, by simp [hp], by simp [hp], fun _ hc => ?_⟩
      simp only [hc, if_false] at h
      split at h
      · cases h
      · rename_i hs
        refine ⟨by omega, fun rid hrid => ?_⟩
        rw [hrid, Option.bind_some, follow_eq_none] at h
        exact h
    · intro h
      by_cases hc : m.intent = .commitBlock
      · simp [hc]
      · obtain ⟨hs, hi⟩ := h.prepared hp hc
        simp only [hc, if_false, Nat.not_le.mpr hs, Option.bind_eq_none_iff, follow_eq_none]
        exact fun rid hrid => hi rid (by simpa using hrid)

/-! ### What a change leaves as it is -/

/-- Two managers of one validator with the same records and signatures. -/
structure Alike (x y : Manager n) : Prop where
  me : y.me = x.me
  statuses : y.statuses = x.statuses
  signatures : y.signatures = x.signatures

section Alike

lemma Alike.own (h : Alike x y) : y.own = x.own := by
  unfold Manager.own
  rw [h.me, h.statuses]

lemma Alike.symm (h : Alike x y) : Alike y x := ⟨h.me.symm, h.statuses.symm, h.signatures.symm⟩

lemma Alike.trans (h : Alike x y) (h' : Alike y m) : Alike x m :=
  ⟨h'.me.trans h.me, h'.statuses.trans h.statuses, h'.signatures.trans h.signatures⟩

lemma Alike.behind (h : Alike x y) : y.behind = x.behind := by
  unfold Manager.behind tally
  rw [h.own, h.statuses]

lemma Alike.revoltVotes (h : Alike x y) : y.revoltVotes = x.revoltVotes := by
  unfold Manager.revoltVotes tally
  rw [h.own, h.statuses]

lemma Alike.holders (h : Alike x y) : y.holders = x.holders := by
  unfold Manager.holders tally
  rw [h.own, h.statuses]

lemma Alike.signed (h : Alike x y) : y.signed = x.signed := by
  unfold Manager.signed
  rw [h.signatures]

lemma Alike.isPrimary (h : Alike x y) : y.isPrimary = x.isPrimary := by
  unfold Manager.isPrimary primary primaryFor
  rw [h.own, h.me]

lemma Alike.waitingIntent (h : Alike x y) : y.waitingIntent = x.waitingIntent := by
  have hp : y.primary = x.primary := by
    unfold primary primaryFor
    rw [h.own]
  unfold Manager.waitingIntent
  rw [h.isPrimary, hp, h.own, h.statuses]

lemma Alike.preparedIntent (h : Alike x y) (rid : Rid) :
    y.preparedIntent rid = x.preparedIntent rid := by
  unfold Manager.preparedIntent signatureSources
  rw [h.own, h.statuses, h.signatures]

lemma Alike.settled (h : Alike x y) (hi : y.intent = x.intent) (hx : x.Settled) : y.Settled where
  catchingUp := by
    rw [h.own, h.behind, hi]
    exact hx.catchingUp
  calm := by
    rw [h.own, h.behind, h.revoltVotes]
    exact hx.calm
  waiting := by
    rw [h.own, h.behind, h.waitingIntent, hi]
    exact hx.waiting
  having := by
    rw [h.own, h.behind, h.holders]
    exact hx.having
  prepared := by
    simp only [h.own, h.signed, hi, h.preparedIntent]
    exact hx.prepared

lemma Becomes.alike {intent : Intent} (h : m.Becomes m' m.own m.signatures intent) : Alike m m' :=
  ⟨h.me, h.statuses.trans (Table.put_get _ _), h.signatures⟩

end Alike

section Frames

variable {own : NodeStatus} {sigs : Table n (Option Signature)} {intent : Intent}

lemma Becomes.get_statuses (h : m.Becomes m' own sigs intent) (i : Fin n) :
    m'.statuses.get i = if m.me = i then own else m.statuses.get i := by
  rw [h.statuses, Table.get_put]

lemma Becomes.tally (h : m.Becomes m' own sigs intent) {p q : NodeStatus → Bool}
    (hown : p own = q m.own) (hpeer : ∀ i, p (m.statuses.get i) = q (m.statuses.get i)) :
    m'.tally p = m.tally q := by
  unfold Manager.tally
  apply List.countP_congr
  intro i _
  rw [h.get_statuses]
  split
  · rename_i hi
    rw [hown, Manager.own, hi]
  · rw [hpeer]

lemma Becomes.behind (h : m.Becomes m' own sigs intent) (hh : own.height = m.own.height) :
    m'.behind = m.behind := by
  have hi : ∀ i, (m'.statuses.get i).height = (m.statuses.get i).height := by
    intro i
    rw [h.get_statuses]
    split
    · rename_i hi
      rw [hh, Manager.own, hi]
    · rfl
  unfold Manager.behind
  rw [h.own_eq, hh]
  simp only [hi]
  rw [h.tally (q := (·.height = m.own.height)) (by simp [hh]) fun _ => rfl]

lemma Becomes.revoltVotes (h : m.Becomes m' own sigs intent) (hh : own.height = m.own.height)
    (hr : own.round = m.own.round) (hv : own.revolting = m.own.revolting) :
    m'.revoltVotes = m.revoltVotes := by
  unfold Manager.revoltVotes
  rw [h.own_eq, hh, hr]
  exact h.tally (by simp [hh, hr, hv]) fun _ => rfl

end Frames

/-! ### At most two steps -/

lemma Becomes.settled_catchUp (unprepared : m.own.phase ≠ .prepared) (behind : m.behind = true)
    (becomes : m.Becomes m' (dropped m.own) m.keptSignatures
      (.fetchBlockAtHeight m.own.height)) : m'.Settled := by
  have hb : m'.behind = true := by rw [becomes.behind (dropped_height _), behind]
  have hp : m'.own.phase ≠ .prepared := by
    rw [becomes.own_eq]
    unfold dropped
    split
    · simp
    · exact unprepared
  refine ⟨fun _ _ => ?_, fun hnb => (hnb ⟨hp, hb⟩).elim, ?_, ?_, fun h => (hp h).elim⟩
  · rw [becomes.intent, becomes.own_eq, dropped_height]
  · exact fun _ hnb => by simp [hb] at hnb
  · exact fun _ hnb => by simp [hb] at hnb

lemma Becomes.calm {intent : Intent} (becomes : m.Becomes m' m.own m.signatures intent)
    (calm : ¬(m.own.revolting = true ∧ quorum n ≤ m.revoltVotes)) :
    ¬(m'.own.revolting = true ∧ quorum n ≤ m'.revoltVotes) := by
  rw [becomes.alike.own, becomes.alike.revoltVotes]
  exact calm

lemma Becomes.settled_await (upToDate : m.behind = false)
    (calm : ¬(m.own.revolting = true ∧ quorum n ≤ m.revoltVotes)) (phase : m.own.phase = .waitBlock)
    (becomes : m.Becomes m' m.own m.signatures m.waitingIntent) : m'.Settled := by
  have hb : m'.behind = false := by rw [becomes.alike.behind, upToDate]
  have hp : m'.own.phase = .waitBlock := by rw [becomes.own_eq, phase]
  refine ⟨by simp [hb], fun _ => becomes.calm calm, fun _ _ => ?_, by simp [hp], by simp [hp]⟩
  rw [becomes.intent, becomes.alike.waitingIntent]

lemma Becomes.settled_commit (calm : ¬(m.own.revolting = true ∧ quorum n ≤ m.revoltVotes))
    (phase : m.own.phase = .prepared)
    (becomes : m.Becomes m' m.own m.signatures .commitBlock) : m'.Settled := by
  have hp : m'.own.phase = .prepared := by rw [becomes.own_eq, phase]
  exact ⟨by simp [hp], fun _ => becomes.calm calm, by simp [hp], by simp [hp],
    fun _ h => (h becomes.intent).elim⟩

lemma Becomes.settled_gather (calm : ¬(m.own.revolting = true ∧ quorum n ≤ m.revoltVotes))
    (phase : m.own.phase = .prepared) (unsigned : m.signed < quorum n) {rid : Rid}
    (held : m.own.rid = some rid)
    (becomes : m.Becomes m' m.own m.signatures (m.preparedIntent rid)) : m'.Settled := by
  have hp : m'.own.phase = .prepared := by rw [becomes.own_eq, phase]
  refine ⟨by simp [hp], fun _ => becomes.calm calm, by simp [hp], by simp [hp], fun _ _ => ?_⟩
  refine ⟨by rw [becomes.alike.signed]; exact unsigned, fun r hr => ?_⟩
  rw [becomes.own_eq, held] at hr
  cases hr
  rw [becomes.intent, becomes.alike.preparedIntent]

/-- Only the next round and a quorum of holders leave something to do, and then one change of intent
does it. -/
theorem settled_of_steps (h : m.step = some x) (h' : x.step = some y) :
    x.Becomes y x.own x.signatures y.intent ∧ y.Settled := by
  have rests : ¬x.Settled := fun hx => by simp [step_eq_none_iff.mpr hx] at h'
  cases stride_of_step h with
  | catchUp unprepared behind news becomes =>
    exact (rests (becomes.settled_catchUp unprepared behind)).elim
  | await upToDate calm phase news becomes =>
    exact (rests (becomes.settled_await upToDate calm phase)).elim
  | commit calm phase news signed becomes => exact (rests (becomes.settled_commit calm phase)).elim
  | gather calm phase uncommitted unsigned rid held news becomes =>
    exact (rests (becomes.settled_gather calm phase unsigned held)).elim
  | nextRound upToDate revolting votes first =>
    cases stride_of_step h' with
    | catchUp unprepared behind =>
      rw [first.own_eq] at unprepared
      rw [first.behind (dropped_height _)] at behind
      exact (upToDate ⟨fun hp => unprepared ((dropped_prepared_iff _).mpr hp), behind⟩).elim
    | nextRound _ revolting => simp [first.own_eq] at revolting
    | await upToDate calm phase news becomes =>
      exact ⟨becomes.intent ▸ becomes, becomes.settled_await upToDate calm phase⟩
    | prepare _ _ phase =>
      rw [first.own_eq] at phase
      exact (dropped_phase_ne _ phase).elim
    | commit calm phase news signed becomes =>
      exact ⟨becomes.intent ▸ becomes, becomes.settled_commit calm phase⟩
    | gather calm phase uncommitted unsigned rid held news becomes =>
      exact ⟨becomes.intent ▸ becomes, becomes.settled_gather calm phase unsigned held⟩
  | prepare upToDate calm phase held first =>
    have hp : x.own.phase = .prepared := by rw [first.own_eq]
    cases stride_of_step h' with
    | catchUp unprepared => exact (unprepared hp).elim
    | nextRound _ revolting votes =>
      rw [first.revoltVotes rfl rfl rfl] at votes
      rw [first.own_eq] at revolting
      exact (calm ⟨revolting, votes⟩).elim
    | await _ _ phase => simp [hp] at phase
    | prepare _ _ phase => simp [hp] at phase
    | commit calm phase news signed becomes =>
      exact ⟨becomes.intent ▸ becomes, becomes.settled_commit calm phase⟩
    | gather calm phase uncommitted unsigned rid held news becomes =>
      exact ⟨becomes.intent ▸ becomes, becomes.settled_gather calm phase unsigned held⟩

lemma settle_succ (limit : ℕ) (m : Manager n) :
    settle (limit + 1) m = (m.step.map (settle limit)).getD m := by
  rw [settle]
  cases m.step <;> rfl

lemma Settled.settle_eq (h : m.Settled) (limit : ℕ) : settle (limit + 1) m = m := by
  rw [settle_succ, step_eq_none_iff.mpr h]
  rfl

/-- What a recompute of three steps or more does: nothing, one step, or one step and a change of
intent. -/
inductive Rests (m : Manager n) : Manager n → Prop
  | already (h : m.Settled) : Rests m m
  | once {x : Manager n} (h : m.step = some x) (hx : x.Settled) : Rests m x
  | twice {x y : Manager n} (h : m.step = some x) (becomes : x.Becomes y x.own x.signatures y.intent)
      (hy : y.Settled) : Rests m y

lemma rests_settle {limit : ℕ} (hl : 3 ≤ limit) (m : Manager n) : m.Rests (settle limit m) := by
  obtain ⟨k, rfl⟩ := Nat.exists_eq_add_of_le' hl
  cases hm : m.step with
  | none =>
    have hset := step_eq_none_iff.mp hm
    rw [hset.settle_eq]
    exact .already hset
  | some x =>
    rw [settle_succ, hm, Option.map_some, Option.getD_some]
    cases hx : x.step with
    | none =>
      have hset := step_eq_none_iff.mp hx
      rw [hset.settle_eq]
      exact .once hm hset
    | some y =>
      obtain ⟨hbecomes, hset⟩ := settled_of_steps hm hx
      rw [settle_succ, hx, Option.map_some, Option.getD_some, hset.settle_eq]
      exact .twice hm hbecomes hset

lemma Rests.settled (h : m.Rests y) : y.Settled := by
  cases h with
  | already h => exact h
  | once h hx => exact hx
  | twice h becomes hy => exact hy

/-- Three steps are enough to come to rest. -/
theorem settled_settle {limit : ℕ} (hl : 3 ≤ limit) (m : Manager n) : (settle limit m).Settled :=
  (rests_settle hl m).settled

/-! ### Every input ends at rest -/

/-- An applied input is its opening and a recompute; catching up is a climb from height to height,
and all else leaves the manager as it was but for its books. -/
lemma respond_cases (m : Manager n) (input : Input) :
    (∃ x, m.opening input = some x ∧ m.respond input = (x.recompute, true)) ∨
      (m.opening input = none ∧ ∃ committed, input = .fastForward committed ∧
        ¬Word.saturate (committed + 1) < m.own.height ∧
        (m.respond input).1 = advance (Word.saturate (committed + 1) - m.own.height) m) ∨
      (m.opening input = none ∧
        (∀ committed, input = .fastForward committed →
          Word.saturate (committed + 1) < m.own.height) ∧
        m.Becomes (m.respond input).1 m.own m.signatures m.intent) := by
  cases ho : m.opening input with
  | some x => exact .inl ⟨x, rfl, (respond_opening ho).2⟩
  | none =>
    refine .inr ?_
    by_cases hf : ∃ committed, input = .fastForward committed
    · obtain ⟨committed, rfl⟩ := hf
      by_cases hlt : Word.saturate (committed + 1) < m.own.height
      · refine .inr ⟨rfl, fun c hc => by cases hc; exact hlt, ?_⟩
        simp only [respond, fastForward, hlt, if_true]
        exact m.becomes_self.record _
      · refine .inl ⟨rfl, committed, rfl, hlt, ?_⟩
        simp only [respond, fastForward, hlt, if_false]
    · refine .inr ⟨rfl, fun c hc => (hf ⟨c, hc⟩).elim, ?_⟩
      rcases respond_of_opening_eq_none ho fun c hc => hf ⟨c, hc⟩ with he | ⟨cause, he⟩ | ⟨now, he⟩
      · rw [he]
        exact m.becomes_self
      · rw [he]
        exact m.becomes_self.record _
      · rw [he]
        exact ⟨rfl, rfl, (Table.put_get _ _).symm, rfl, rfl⟩

lemma config_opening {input : Input} (h : m.opening input = some x) : x.config = m.config :=
  (respond_opening h).1.fixed.2

lemma fixed_settle (limit : ℕ) (m : Manager n) :
    (settle limit m).me = m.me ∧ (settle limit m).config = m.config := by
  induction limit generalizing m with
  | zero => exact ⟨rfl, rfl⟩
  | succ limit ih =>
    rw [settle_succ]
    cases h : m.step with
    | none => exact ⟨rfl, rfl⟩
    | some x =>
      obtain ⟨hme, hconfig⟩ := fixed_of_step h
      rw [Option.map_some, Option.getD_some, (ih x).1, (ih x).2]
      exact ⟨hme, hconfig⟩

lemma config_advanceHeight (m : Manager n) : m.advanceHeight.config = m.config :=
  (fixed_settle _ _).2.trans (becomes_climb m).config

lemma settled_recompute (hl : 3 ≤ m.config.maxIterations) : m.recompute.Settled :=
  settled_settle hl m

lemma settled_advance (hl : 3 ≤ m.config.maxIterations) (hm : m.Settled) (heights : ℕ) :
    (advance heights m).Settled := by
  induction heights generalizing m with
  | zero => exact hm
  | succ heights ih =>
    have hl' : 3 ≤ m.climb.config.maxIterations := by rwa [(becomes_climb m).config]
    exact ih (by rwa [config_advanceHeight]) (settled_recompute hl')

/-- Every input leaves a manager at rest that was at rest before. -/
theorem Settled.respond (hl : 3 ≤ m.config.maxIterations) (hm : m.Settled) (input : Input) :
    (m.respond input).1.Settled := by
  rcases respond_cases m input with ⟨x, hx, he⟩ | ⟨-, committed, -, -, he⟩ | ⟨-, -, hb⟩
  · rw [he]
    exact settled_recompute (by rwa [config_opening hx])
  · rw [he]
    exact settled_advance hl hm _
  · exact hb.alike.settled hb.intent hm

lemma settled_start {config : Config} (hl : 3 ≤ config.maxIterations) (me : Fin n)
    (height wallMillis : ℕ) : (start config me height wallMillis).Settled := by
  let serial := Word.toSigned (wallMillis - config.serialEpoch)
  have halike : Alike (blank config me height serial).recompute
      (start config me height wallMillis) := ⟨rfl, rfl, rfl⟩
  exact halike.settled rfl (settled_recompute hl)

lemma fixed_run {inputs : List Input} (h : m.run inputs = .ok m') :
    m'.me = m.me ∧ m'.config = m.config :=
  run_induction (P := fun x => x.me = m.me ∧ x.config = m.config) ⟨rfl, rfl⟩
    (fun x input hx => by rw [(fixed_respond x input).1, (fixed_respond x input).2]; exact hx) h

/-- What every response of a manager with one configuration preserves is kept by every run. -/
lemma run_induction_of_config {P : Manager n → Prop} {inputs : List Input} (hP : P m)
    (hrespond : ∀ x input, x.config = m.config → P x → P (x.respond input).1)
    (h : m.run inputs = .ok m') : P m' := by
  have hboth : m'.config = m.config ∧ P m' := by
    refine run_induction (P := fun x => x.config = m.config ∧ P x) ⟨rfl, hP⟩ ?_ h
    rintro x input ⟨hc, hx⟩
    exact ⟨(fixed_respond x input).2.trans hc, hrespond x input hc hx⟩
  exact hboth.2

/-- A manager that may take three steps or more stays at rest. -/
theorem Settled.run (hl : 3 ≤ m.config.maxIterations) (hm : m.Settled) {inputs : List Input}
    (h : m.run inputs = .ok m') : m'.Settled :=
  run_induction_of_config hm (fun _ input hc hx => hx.respond (by rwa [hc]) input) h

end Conclave.Manager

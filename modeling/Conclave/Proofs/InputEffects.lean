import Conclave.Proofs.PreparedLock

/-!
# What an input does to the height and the block

Most inputs leave the own height and the block in hand alone or at most drop a block that is not
prepared. Those that commit lead to the next height, where the manager waits for a block again.
-/

namespace Conclave.Manager

variable {n : ℕ} {m m' x y : Manager n}

/-! ### Heights -/

lemma height_of_step (h : m.step = some m') : m'.own.height = m.own.height := by
  cases stride_of_step h with
  | catchUp _ _ _ becomes => simp [becomes.own_eq]
  | nextRound _ _ _ becomes => simp [becomes.own_eq]
  | await _ _ _ _ becomes => rw [becomes.own_eq]
  | prepare _ _ _ _ becomes => rw [becomes.own_eq]
  | commit _ _ _ _ becomes => rw [becomes.own_eq]
  | gather _ _ _ _ _ _ _ becomes => rw [becomes.own_eq]

lemma Move.height_eq {input : Input} (h : Move input x y) (hi : input.climbs = false) :
    y.own.height = x.own.height := by
  cases h with
  | rest => rfl
  | step h => exact height_of_step h
  | cutOff => rfl
  | reject => rfl
  | setTime => rfl
  | hear i s told peer fresher => rw [hear_own peer]
  | climb told => simp [hi] at told
  | take rid signature => rw [(becomes_take x rid signature).own_eq]
  | collect i rid signature => rw [(becomes_collect x i signature).own_eq]
  | rebel => rw [(becomes_rebel x).own_eq]

lemma height_respond {input : Input} (hi : input.climbs = false) :
    (m.respond input).1.own.height = m.own.height :=
  respond_invariant (P := fun x => x.own.height = m.own.height) rfl
    fun _ _ h hx => (h.height_eq hi).trans hx

lemma height_recompute (m : Manager n) : m.recompute.own.height = m.own.height :=
  (height_respond rfl : (m.respond .recompute).1.own.height = m.own.height)

lemma height_advanceHeight (m : Manager n) : m.advanceHeight.own.height = m.own.height + 1 := by
  have hclimb : m.climb.own.height = m.own.height + 1 := by rw [(becomes_climb m).own_eq]
  rw [← hclimb]
  exact height_recompute m.climb

lemma height_start (config : Config) (me : Fin n) (height wallMillis : ℕ) :
    (start config me height wallMillis).own.height = height := by
  refine start_invariant (P := fun x => x.own.height = height) (fun serial => ?_)
    (fun x y hmove hx => (hmove.height_eq rfl).trans hx) (fun x hx => hx) wallMillis
  simp [own, blank, NodeStatus.fresh]

/-! ### The block in hand -/

/-- Whether an input can put a block in hand. -/
def Input.takes : Input → Bool
  | .received _ _ | .built _ _ => true
  | _ => false

lemma dropped_eq_of_holding {s : NodeStatus} (h : (dropped s).phase ≠ .waitBlock) :
    s.phase = .prepared := by
  have hne := dropped_phase_ne s
  rw [← dropped_prepared_iff]
  cases hp : (dropped s).phase with
  | waitBlock => exact (h hp).elim
  | haveBlock => exact (hne hp).elim
  | prepared => rfl

lemma steady_of_step (h : m.step = some m') (hp : m'.own.phase ≠ .waitBlock) :
    m.own.phase ≠ .waitBlock ∧ m'.own.rid = m.own.rid := by
  cases stride_of_step h with
  | catchUp unprepared behind news becomes =>
    rw [becomes.own_eq] at hp
    exact (unprepared (dropped_eq_of_holding hp)).elim
  | nextRound upToDate revolting votes becomes =>
    rw [becomes.own_eq] at hp ⊢
    have hprepared := dropped_eq_of_holding hp
    refine ⟨by simp [hprepared], ?_⟩
    rw [dropped_of_ne (by simp [hprepared])]
  | await upToDate calm phase news becomes =>
    rw [becomes.own_eq] at hp
    exact (hp phase).elim
  | prepare upToDate calm phase held becomes =>
    rw [becomes.own_eq]
    exact ⟨by simp [phase], rfl⟩
  | commit calm phase news signed becomes =>
    rw [becomes.own_eq]
    exact ⟨by simp [phase], rfl⟩
  | gather calm phase uncommitted unsigned rid held news becomes =>
    rw [becomes.own_eq]
    exact ⟨by simp [phase], rfl⟩

/-- A block in hand was in hand before, unless the input brought it. -/
lemma Move.steady {input : Input} (h : Move input x y) (hi : input.takes = false)
    (hp : y.own.phase ≠ .waitBlock) : x.own.phase ≠ .waitBlock ∧ y.own.rid = x.own.rid := by
  cases h with
  | rest => exact ⟨hp, rfl⟩
  | step h => exact steady_of_step h hp
  | cutOff => exact ⟨hp, rfl⟩
  | reject => exact ⟨hp, rfl⟩
  | setTime => exact ⟨hp, rfl⟩
  | hear i s told peer fresher =>
    rw [hear_own peer] at hp ⊢
    exact ⟨hp, rfl⟩
  | climb =>
    rw [(becomes_climb x).own_eq] at hp
    exact (hp rfl).elim
  | take rid signature wanted =>
    rcases wanted with ⟨rfl, -⟩ | ⟨rfl, -⟩ <;> simp [Input.takes] at hi
  | collect i rid signature =>
    rw [(becomes_collect x i signature).own_eq] at hp ⊢
    exact ⟨hp, rfl⟩
  | rebel =>
    rw [(becomes_rebel x).own_eq] at hp ⊢
    exact ⟨hp, rfl⟩

lemma steady_respond (input : Input) (hi : input.takes = false)
    (hp : (m.respond input).1.own.phase ≠ .waitBlock) :
    m.own.phase ≠ .waitBlock ∧ (m.respond input).1.own.rid = m.own.rid := by
  revert hp
  refine respond_invariant
    (P := fun x => x.own.phase ≠ .waitBlock → m.own.phase ≠ .waitBlock ∧ x.own.rid = m.own.rid)
    (fun hp => ⟨hp, rfl⟩) fun x y hmove hx hp => ?_
  obtain ⟨hpx, hr⟩ := hmove.steady hi hp
  exact ⟨(hx hpx).1, hr.trans (hx hpx).2⟩

lemma waits_start (config : Config) (me : Fin n) (height wallMillis : ℕ) :
    (start config me height wallMillis).own.phase = .waitBlock := by
  refine start_invariant (P := fun x => x.own.phase = .waitBlock) (fun serial => ?_)
    (fun x y hmove hx => ?_) (fun x hx => hx) wallMillis
  · simp [own, blank, NodeStatus.fresh]
  · by_contra hp
    exact (hmove.steady rfl hp).1 hx

/-- From `m` to `m'` the height stays, no block comes to hand and none that is prepared goes. -/
structure Gentle (m m' : Manager n) : Prop where
  height : m'.own.height = m.own.height
  steady : m'.own.phase ≠ .waitBlock → m.own.phase ≠ .waitBlock ∧ m'.own.rid = m.own.rid
  lock : ∀ rid, m.PreparedOn rid → m'.PreparedOn rid
  coherent : m.Coherent → m'.Coherent

lemma gentle_refl (m : Manager n) : Gentle m m :=
  ⟨rfl, fun h => ⟨h, rfl⟩, fun _ h => h, fun h => h⟩

lemma Gentle.trans (h : Gentle x y) (h' : Gentle y m) : Gentle x m where
  height := h'.height.trans h.height
  steady hp := by
    obtain ⟨hy, hr⟩ := h'.steady hp
    exact ⟨(h.steady hy).1, hr.trans (h.steady hy).2⟩
  lock rid hp := h'.lock rid (h.lock rid hp)
  coherent hx := h'.coherent (h.coherent hx)

lemma Gentle.waits (h : Gentle m m') (hp : m.own.phase = .waitBlock) :
    m'.own.phase = .waitBlock := by
  by_contra hne
  exact (h.steady hne).1 hp

/-- Statuses, signatures, revolts and the time are gentle. -/
theorem Coherent.gentle_respond (hm : m.Coherent) (input : Input) (hc : input.climbs = false)
    (ht : input.takes = false) : Gentle m (m.respond input).1 where
  height := height_respond hc
  steady := steady_respond input ht
  lock rid hp := by
    rcases (hm.keeps_respond input).block rid hp with hlt | ⟨-, h⟩
    · rw [height_respond hc] at hlt
      exact (lt_irrefl _ hlt).elim
    · exact h
  coherent h := h.respond input

lemma gentle_setTime (m : Manager n) (now : Duration) : Gentle m (m.setTime now) :=
  ⟨rfl, fun h => ⟨h, rfl⟩, fun _ h => h, fun h => h⟩

/-! ### Blocks that come to hand, and blocks that are committed -/

lemma rid_of_taken {rid : Rid} {s : Signature}
    (hp : (m.take rid s).recompute.own.phase ≠ .waitBlock) :
    (m.take rid s).recompute.own.rid = some rid := by
  have hrid : (m.take rid s).own.rid = some rid := by rw [(becomes_take m rid s).own_eq]
  rw [← hrid]
  exact (steady_respond .recompute rfl hp).2

/-- A block is taken in hand, or nothing but an event is left of it. -/
lemma respond_block (m : Manager n) {input : Input} {rid : Rid} {s : Signature}
    (hi : input = .received rid s ∨ input = .built rid s) :
    m.respond input = ((m.take rid s).recompute, true) ∨
      ∃ cause, m.respond input = (m.reject cause, false) := by
  rcases hi with rfl | rfl
  · simp only [respond, onReceived]
    split
    · exact .inl rfl
    · exact .inr ⟨_, rfl⟩
  · simp only [respond, onBuilt]
    split
    · exact .inr ⟨_, rfl⟩
    · split
      · exact .inl rfl
      · exact .inr ⟨_, rfl⟩

/-- The height after the own one is applied unless it has reached the end of its word. -/
lemma respond_heightAdvance (h : m.own.height < Word.maxUnsigned) :
    m.respond (.heightAdvance (m.own.height + 1)) = (m.advanceHeight, true) := by
  refine if_pos ?_
  unfold Word.saturate
  omega

/-- A commit of the own block is applied. -/
lemma respond_committed {rid : Rid} (h : m.own.rid = some rid) :
    m.respond (.committed rid) = (m.advanceHeight, true) := if_pos h

lemma waits_advanceHeight (m : Manager n) : m.advanceHeight.own.phase = .waitBlock := by
  by_contra hp
  have hclimb : m.climb.own.phase = .waitBlock := by rw [(becomes_climb m).own_eq]
  exact (steady_respond .recompute rfl hp).1 hclimb

/-- A manager that is told of a block in the chain goes on to the next height, or turns it down. -/
lemma respond_grown (m : Manager n) {input : Input}
    (hi : (∃ height, input = .heightAdvance height) ∨ ∃ rid, input = .committed rid) :
    m.respond input = (m.advanceHeight, true) ∨
      ∃ cause, m.respond input = (m.reject cause, false) := by
  rcases hi with ⟨height, rfl⟩ | ⟨rid, rfl⟩
  · simp only [respond, onHeightAdvance]
    split
    · exact .inl rfl
    · exact .inr ⟨_, rfl⟩
  · simp only [respond, onCommitted]
    split
    · exact .inl rfl
    · exact .inr ⟨_, rfl⟩

lemma waits_advance (heights : ℕ) (hp : m.own.phase = .waitBlock) :
    (advance heights m).own.phase = .waitBlock := by
  induction heights generalizing m with
  | zero => exact hp
  | succ heights ih => exact ih (waits_advanceHeight m)

/-- A manager that catches up waits for a block then, unless there is nothing to catch up with. -/
lemma respond_fastForward (m : Manager n) (committed : ℕ) :
    (m.respond (.fastForward committed)).1.own.phase = .waitBlock ∨
      (m.respond (.fastForward committed)).1.own = m.own := by
  simp only [respond, fastForward]
  split
  · exact .inr rfl
  · cases Word.saturate (committed + 1) - m.own.height with
    | zero => exact .inr rfl
    | succ heights => exact .inl (waits_advance heights (waits_advanceHeight m))

lemma coherent_advanceHeight (m : Manager n) : m.advanceHeight.Coherent :=
  (coherent_climb m).recompute

end Conclave.Manager

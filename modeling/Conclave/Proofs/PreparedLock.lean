import Conclave.Proofs.ManagerCoherence

/-!
# A prepared block is kept

Once a status manager is prepared on a block, no input releases or replaces that block before the
own height is left behind, and a manager comes to be prepared only on the block it has in hand, at a
moment when a quorum of recorded validators holds it.
-/

namespace Conclave.Manager

variable {n : ℕ} {m m' x y : Manager n}

/-- The own validator is prepared on the block `rid`. -/
def PreparedOn (m : Manager n) (rid : Rid) : Prop :=
  m.own.phase = .prepared ∧ m.own.rid = some rid

/-- From `x` to `y` the height does not fall, and a prepared block is kept or left behind with its
height. -/
structure Keeps (x y : Manager n) : Prop where
  height_le : x.own.height ≤ y.own.height
  block : ∀ rid, x.PreparedOn rid →
    x.own.height < y.own.height ∨ (y.own.height = x.own.height ∧ y.PreparedOn rid)

lemma keeps_of_own_eq (h : y.own = x.own) : Keeps x y where
  height_le := by rw [h]
  block rid hp := by
    refine .inr ⟨by rw [h], ?_⟩
    unfold PreparedOn
    rw [h]
    exact hp

lemma keeps_of_unprepared (hh : x.own.height ≤ y.own.height) (hp : x.own.phase ≠ .prepared) :
    Keeps x y :=
  ⟨hh, fun _ h => (hp h.1).elim⟩

lemma keeps_of_higher (hh : x.own.height < y.own.height) : Keeps x y := ⟨hh.le, fun _ _ => .inl hh⟩

lemma Keeps.trans (h : Keeps x y) (h' : Keeps y m) : Keeps x m where
  height_le := h.height_le.trans h'.height_le
  block rid hp := by
    rcases h.block rid hp with hlt | ⟨heq, hp'⟩
    · exact .inl (hlt.trans_le h'.height_le)
    · have hlast := h'.block rid hp'
      rw [heq] at hlast
      exact hlast

instance : Trans (@Keeps n) (@Keeps n) (@Keeps n) := ⟨Keeps.trans⟩

lemma keeps_of_step (h : x.step = some y) : Keeps x y := by
  cases stride_of_step h with
  | catchUp unprepared behind news becomes =>
    exact keeps_of_unprepared (by simp [becomes.own_eq]) unprepared
  | nextRound upToDate revolting votes becomes =>
    by_cases hp : x.own.phase = .prepared
    · have hd : dropped x.own = x.own := dropped_of_ne (by simp [hp])
      rw [hd] at becomes
      have hown := becomes.own_eq
      exact ⟨by simp [hown], fun rid hrid => .inr ⟨by simp [hown], by simpa [PreparedOn, hown]⟩⟩
    · exact keeps_of_unprepared (by simp [becomes.own_eq]) hp
  | await upToDate calm phase news becomes => exact keeps_of_own_eq becomes.own_eq
  | prepare upToDate calm phase held becomes =>
    exact keeps_of_unprepared (by simp [becomes.own_eq]) (by simp [phase])
  | commit calm phase news signed becomes => exact keeps_of_own_eq becomes.own_eq
  | gather calm phase uncommitted unsigned rid held news becomes =>
    exact keeps_of_own_eq becomes.own_eq

lemma Coherent.waits_to_take (hx : x.Coherent)
    (wanted : (∃ rid, x.intent = .fetchUnfinishedBlock rid) ∨ x.intent = .buildBlock) :
    x.own.phase = .waitBlock := by
  cases hp : x.own.phase with
  | waitBlock => rfl
  | haveBlock =>
    have hi := hx.intent_of_having hp
    simp [hi] at wanted
  | prepared =>
    rcases hx.intent_of_prepared hp with hi | ⟨hi, -⟩ | ⟨r, nodes, -, hi⟩ <;> simp [hi] at wanted

lemma Coherent.keeps_of_move {input : Input} (hx : x.Coherent) (h : Move input x y) :
    Keeps x y := by
  cases h with
  | rest => exact keeps_of_own_eq rfl
  | step h => exact keeps_of_step h
  | cutOff => exact keeps_of_own_eq rfl
  | reject => exact keeps_of_own_eq rfl
  | setTime => exact keeps_of_own_eq rfl
  | hear i s told peer fresher => exact keeps_of_own_eq (hear_own peer)
  | climb => exact keeps_of_higher (by simp [(becomes_climb x).own_eq])
  | take rid signature wanted =>
    have hp := hx.waits_to_take (wanted.imp (fun h => ⟨rid, h.2⟩) fun h => h.2.1)
    exact keeps_of_unprepared (by simp [(becomes_take x _ _).own_eq]) (by simp [hp])
  | collect i rid signature => exact keeps_of_own_eq (becomes_collect x i signature).own_eq
  | rebel =>
    have hown := (becomes_rebel x).own_eq
    exact ⟨by simp [hown], fun rid hrid => .inr ⟨by simp [hown], by simpa [PreparedOn, hown]⟩⟩

lemma Coherent.keeps_respond (hm : m.Coherent) (input : Input) : Keeps m (m.respond input).1 := by
  have hboth : (m.respond input).1.Coherent ∧ Keeps m (m.respond input).1 := by
    refine respond_invariant (P := fun x => x.Coherent ∧ Keeps m x) ⟨hm, keeps_of_own_eq rfl⟩ ?_
    rintro x y hmove ⟨hx, hk⟩
    exact ⟨hx.move hmove, hk.trans (hx.keeps_of_move hmove)⟩
  exact hboth.2

/-- The status `t` keeps what is prepared in the status `s`. -/
def KeptBy (s t : NodeStatus) : Prop :=
  s.height ≤ t.height ∧
    (s.phase = .prepared →
      s.height < t.height ∨ (t.height = s.height ∧ t.phase = .prepared ∧ t.rid = s.rid))

lemma KeptBy.trans {s t u : NodeStatus} (h : KeptBy s t) (h' : KeptBy t u) : KeptBy s u := by
  refine ⟨h.1.trans h'.1, fun hp => ?_⟩
  rcases h.2 hp with hlt | ⟨heq, hp', hr⟩
  · exact .inl (hlt.trans_le h'.1)
  · rcases h'.2 hp' with hlt | ⟨heq', hp'', hr'⟩
    · exact .inl (heq ▸ hlt)
    · exact .inr ⟨heq'.trans heq, hp'', hr'.trans hr⟩

lemma Coherent.keptBy_respond (hm : m.Coherent) (input : Input) :
    KeptBy m.own (m.respond input).1.own := by
  have hk := hm.keeps_respond input
  refine ⟨hk.height_le, fun hp => ?_⟩
  obtain ⟨rid, hr⟩ := hm.exists_rid (by simp [hp])
  rw [hr]
  exact hk.block rid ⟨hp, hr⟩

/-- What it takes to be prepared on `rid` in `y`: to have been so in `x`, at the same height, or to
have had the block in hand there while a quorum was recorded to hold it. -/
def EarnsPrepared (x y : Manager n) (rid : Rid) : Prop :=
  (x.PreparedOn rid ∧ x.own.height = y.own.height) ∨
    (x.own.phase = .haveBlock ∧ x.own.rid = some rid ∧ x.own.height = y.own.height ∧
      quorum n ≤ (x.holdersOf x.own.height rid).card)

lemma earnsPrepared_of_own_eq {rid : Rid} (h : y.own = x.own) (hp : y.PreparedOn rid) :
    EarnsPrepared x y rid := by
  unfold PreparedOn at hp
  rw [h] at hp
  exact .inl ⟨hp, by rw [h]⟩

lemma earnsPrepared_of_step {rid : Rid} (h : x.step = some y) (hp : y.PreparedOn rid) :
    EarnsPrepared x y rid := by
  cases stride_of_step h with
  | catchUp unprepared behind news becomes =>
    have hown := becomes.own_eq
    have hd : (dropped x.own).phase = .prepared := by rw [← hown]; exact hp.1
    unfold dropped at hd
    split at hd
    · simp at hd
    · exact (unprepared hd).elim
  | nextRound upToDate revolting votes becomes =>
    have hown := becomes.own_eq
    obtain ⟨hphase, hrid⟩ := hp
    rw [hown] at hphase hrid
    by_cases hh : x.own.phase = .haveBlock
    · simp [dropped, hh] at hphase
    · rw [dropped_of_ne hh] at hphase hrid
      exact .inl ⟨⟨hphase, hrid⟩, by simp [hown]⟩
  | await upToDate calm phase news becomes => exact earnsPrepared_of_own_eq becomes.own_eq hp
  | prepare upToDate calm phase held becomes =>
    have hown := becomes.own_eq
    have hrid : x.own.rid = some rid := by simpa [hown] using hp.2
    rw [holders_eq_card hrid] at held
    exact .inr ⟨phase, hrid, by simp [hown], held⟩
  | commit calm phase news signed becomes => exact earnsPrepared_of_own_eq becomes.own_eq hp
  | gather calm phase uncommitted unsigned r held news becomes =>
    exact earnsPrepared_of_own_eq becomes.own_eq hp

lemma earnsPrepared_of_move {input : Input} {rid : Rid} (h : Move input x y)
    (hp : y.PreparedOn rid) : EarnsPrepared x y rid := by
  cases h with
  | rest => exact earnsPrepared_of_own_eq rfl hp
  | step h => exact earnsPrepared_of_step h hp
  | cutOff => exact earnsPrepared_of_own_eq rfl hp
  | reject => exact earnsPrepared_of_own_eq rfl hp
  | setTime => exact earnsPrepared_of_own_eq rfl hp
  | hear i s told peer fresher => exact earnsPrepared_of_own_eq (hear_own peer) hp
  | climb =>
    have hphase := hp.1
    simp [(becomes_climb x).own_eq] at hphase
  | take r signature wanted =>
    have hphase := hp.1
    simp [(becomes_take x _ _).own_eq] at hphase
  | collect i r signature => exact earnsPrepared_of_own_eq (becomes_collect x i signature).own_eq hp
  | rebel =>
    have hown := (becomes_rebel x).own_eq
    refine .inl ⟨?_, by simp [hown]⟩
    simpa [PreparedOn, hown] using hp

/-! ### Whole runs -/

lemma Coherent.accepts_waiting {rid : Rid} {s : Signature} (hx : x.Coherent)
    (h : (x.onReceived rid s).2 = true ∨ (x.onBuilt rid s).2 = true) :
    x.own.phase = .waitBlock := by
  rcases h with h | h
  · unfold onReceived Intent.isWaitingFor at h
    split at h
    · rename_i hi
      exact hx.waits_to_take (.inl ⟨rid, of_decide_eq_true hi⟩)
    · cases h
  · unfold onBuilt at h
    split at h
    · cases h
    · rename_i hi
      exact hx.waits_to_take (.inr (not_not.mp hi))

section Runs

variable {inputs : List Input}

lemma coherent_of_mem_trail (hm : m.Coherent) (inputs : List Input) :
    ∀ x ∈ m.trail inputs, x.Coherent :=
  trail_invariant hm (fun _ _ _ h hx => hx.move h) inputs

/-- Later moments of a run keep what is prepared at earlier ones. -/
theorem pairwise_keeps_trail (hm : m.Coherent) (inputs : List Input) :
    (m.trail inputs).Pairwise Keeps := by
  have hcoherent := coherent_of_mem_trail hm inputs
  have hchain : (m.trail inputs).IsChain Keeps :=
    (isChain_trail m inputs).imp_of_mem_imp fun x y hx _ ⟨_, h⟩ => (hcoherent x hx).keeps_of_move h
  exact hchain.pairwise

/-- A run is prepared on at most one block at each height. -/
lemma prepared_unique (hm : m.Coherent) {x y : Manager n} (hx : x ∈ m.trail inputs)
    (hy : y ∈ m.trail inputs) (hh : x.own.height = y.own.height) {rid rid' : Rid}
    (hr : x.PreparedOn rid) (hr' : y.PreparedOn rid') : rid = rid' := by
  have agree : ∀ {a b : Manager n}, Keeps a b → a.own.height = b.own.height →
      ∀ {r r' : Rid}, a.PreparedOn r → b.PreparedOn r' → r = r' := by
    intro a b hk hab r r' ha hb
    rcases hk.block r ha with hlt | ⟨-, hb'⟩
    · omega
    · exact Option.some.inj (hb'.2.symm.trans hb.2)
  have hpair : (m.trail inputs).Pairwise fun a b => Keeps a b ∨ Keeps b a :=
    (pairwise_keeps_trail hm inputs).imp fun h => .inl h
  have hsymm : Std.Symm fun a b : Manager n => Keeps a b ∨ Keeps b a := ⟨fun _ _ h => h.symm⟩
  rcases hpair.forall_of_forall (fun a _ => .inl (keeps_of_own_eq rfl)) hx hy with h | h
  · exact agree h hh hr hr'
  · exact (agree h hh.symm hr' hr).symm

/-- Along every run, whatever the peers say and wherever a recompute is cut off: a prepared block
stays prepared until the height is left behind, its own signature stays with it, a height has at
most one prepared block, a block is prepared only out of the hand of its holder while a quorum is
recorded to hold it, and no block is accepted except by a manager that waits for one. -/
theorem prepared_is_kept (config : Config) (me : Fin n) (height wallMillis : ℕ)
    (inputs : List Input) :
    let moments := (start config me height wallMillis).trail inputs
    (moments.Pairwise fun x y =>
      x.own.height ≤ y.own.height ∧
        ∀ rid, x.PreparedOn rid →
          x.own.height < y.own.height ∨ (y.own.height = x.own.height ∧ y.PreparedOn rid)) ∧
    (∀ x ∈ moments, x.own.phase = .prepared →
      (∃ rid, x.PreparedOn rid) ∧ x.ownSignature.isSome = true) ∧
    (∀ x ∈ moments, ∀ y ∈ moments, x.own.height = y.own.height →
      ∀ rid rid', x.PreparedOn rid → y.PreparedOn rid' → rid = rid') ∧
    (moments.IsChain fun x y => ∀ rid, y.PreparedOn rid → EarnsPrepared x y rid) ∧
    (∀ x ∈ moments, ∀ rid s,
      ((x.onReceived rid s).2 = true ∨ (x.onBuilt rid s).2 = true) →
        x.own.phase = .waitBlock) := by
  intro moments
  have hstart := coherent_start config me height wallMillis
  have hcoherent := coherent_of_mem_trail hstart inputs
  refine ⟨?kept, ?signed, ?unique, ?earned, ?accepted⟩
  case kept => exact (pairwise_keeps_trail hstart inputs).imp fun h => ⟨h.height_le, h.block⟩
  case signed =>
    intro x hx hp
    obtain ⟨rid, hr⟩ := (hcoherent x hx).exists_rid (by simp [hp])
    exact ⟨⟨rid, hp, hr⟩, (hcoherent x hx).sigs_of_prepared hp⟩
  case unique =>
    intro x hx y hy hh rid rid' hr hr'
    exact prepared_unique hstart hx hy hh hr hr'
  case earned =>
    exact (isChain_trail _ inputs).imp fun x y ⟨_, h⟩ rid hp => earnsPrepared_of_move h hp
  case accepted =>
    intro x hx rid s h
    exact (hcoherent x hx).accepts_waiting h

end Runs

end Conclave.Manager

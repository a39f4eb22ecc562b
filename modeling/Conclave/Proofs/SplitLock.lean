import Conclave.Proofs.Agreement

/-!
# Split locks

A prepared block survives every change of the round, so validators that are prepared on different
blocks of one height wait for each other for ever. Each of these blocks was once in the hands of a
quorum. They can have come to be prepared only because some validators let such a block go, not yet
prepared, when they went on to a later round, and were prepared on another one there, while the old
records of them still counted.
-/

namespace Conclave

open Manager (Input Past Honest KeptBy)

variable {n : ℕ} {heightOf : Rid → ℕ}

namespace Manager

variable {m m' x y : Manager n} {past : Past n heightOf}

/-- At one height `t` comes no earlier than `s`, and no block is let go within a round. -/
def HoldsOn (s t : NodeStatus) : Prop :=
  s.round ≤ t.round ∧ ∀ rid, s.rid = some rid → t.rid = some rid ∨ s.round < t.round

lemma holdsOn_refl (s : NodeStatus) : HoldsOn s s := ⟨le_rfl, fun _ h => .inl h⟩

lemma HoldsOn.trans {s t u : NodeStatus} (h : HoldsOn s t) (h' : HoldsOn t u) : HoldsOn s u := by
  refine ⟨h.1.trans h'.1, fun rid hr => ?_⟩
  rcases h.2 rid hr with ht | hlt
  · rcases h'.2 rid ht with hu | hlt
    · exact .inl hu
    · exact .inr (h.1.trans_lt hlt)
  · exact .inr (hlt.trans_le h'.1)

lemma holdsOn_of_eq {s t : NodeStatus} (hround : t.round = s.round) (hrid : t.rid = s.rid) :
    HoldsOn s t :=
  ⟨hround.ge, fun _ hr => .inl (hrid.trans hr)⟩

/-- Only the next round takes a block away, since nobody is above the own height. -/
lemma holdsOn_of_step (htop : ∀ i, (x.statuses.get i).height ≤ x.own.height)
    (h : x.step = some y) : HoldsOn x.own y.own := by
  cases stride_of_step h with
  | catchUp unprepared behind news becomes =>
    obtain ⟨-, i, hi⟩ := behind_iff.mp behind
    exact absurd hi (htop i).not_gt
  | nextRound upToDate revolting votes becomes =>
    rw [becomes.own_eq]
    exact ⟨by simp, fun _ _ => .inr (by simp)⟩
  | await upToDate calm phase news becomes =>
    rw [becomes.own_eq]
    exact holdsOn_refl _
  | prepare upToDate calm phase held becomes =>
    rw [becomes.own_eq]
    exact holdsOn_of_eq rfl rfl
  | commit calm phase news signed becomes =>
    rw [becomes.own_eq]
    exact holdsOn_refl _
  | gather calm phase uncommitted unsigned rid held news becomes =>
    rw [becomes.own_eq]
    exact holdsOn_refl _

lemma Backed.height_le (hx : x.Backed past) (htop : ∀ j s, past.had j s → s.height ≤ x.own.height)
    (i : Fin n) : (x.statuses.get i).height ≤ x.own.height := by
  by_cases hi : i = x.me
  · rw [hi]
    exact le_rfl
  · rcases hx.record i hi with hu | hhad
    · rw [hu]
      exact Nat.zero_le _
    · exact htop i _ hhad

lemma Backed.holdsOn_of_move {input : Input} (hx : x.Backed past)
    (htop : ∀ j s, past.had j s → s.height ≤ x.own.height) (hi : input.climbs = false)
    (h : Move input x y) : HoldsOn x.own y.own := by
  cases h with
  | rest => exact holdsOn_refl _
  | step h => exact holdsOn_of_step (hx.height_le htop) h
  | cutOff => exact holdsOn_refl _
  | reject => exact holdsOn_refl _
  | setTime => exact holdsOn_refl _
  | hear i s told peer fresher =>
    rw [hear_own peer]
    exact holdsOn_refl _
  | climb told => simp [hi] at told
  | take rid signature wanted =>
    have hp := hx.coherent.waits_to_take (wanted.imp (fun h => ⟨rid, h.2⟩) fun h => h.2.1)
    rw [(becomes_take x rid signature).own_eq]
    exact ⟨le_rfl, by simp [hx.coherent.rid_eq_none.mpr hp]⟩
  | collect i rid signature =>
    rw [(becomes_collect x i signature).own_eq]
    exact holdsOn_refl _
  | rebel =>
    rw [(becomes_rebel x).own_eq]
    exact holdsOn_of_eq rfl rfl

lemma Backed.holdsOn_respond {input : Input} (hm : m.Backed past)
    (hin : Honest past m.own.height input) (hi : input.climbs = false)
    (htop : ∀ j s, past.had j s → s.height ≤ m.own.height) :
    HoldsOn m.own (m.respond input).1.own := by
  have hall : (m.respond input).1.Backed past ∧
      (m.respond input).1.own.height = m.own.height ∧ HoldsOn m.own (m.respond input).1.own := by
    refine respond_invariant
      (P := fun x => x.Backed past ∧ x.own.height = m.own.height ∧ HoldsOn m.own x.own)
      ⟨hm, rfl, holdsOn_refl _⟩ ?_
    rintro x y hmove ⟨hx, hh, hon⟩
    refine ⟨hx.move hin (fun _ => hh) hmove, (hmove.height_eq hi).trans hh, hon.trans ?_⟩
    exact hx.holdsOn_of_move (by rwa [hh]) hi hmove
  exact hall.2.2

/-- But for `me`, a quorum once had the block `rid` in hand at `height`. -/
def Past.Carried (past : Past n heightOf) (me : Fin n) (height : ℕ) (rid : Rid) : Prop :=
  ∃ voters : Finset (Fin n), quorum n ≤ voters.card ∧
    ∀ j ∈ voters, j ≠ me → ∃ s, past.had j s ∧ s.height = height ∧ s.rid = some rid

lemma Backed.carried (hx : x.Backed past) {rid : Rid}
    (hq : quorum n ≤ (x.holdersOf x.own.height rid).card) :
    past.Carried x.me x.own.height rid := by
  refine ⟨_, hq, fun j hj hme => ?_⟩
  obtain ⟨-, hh, hr, -⟩ := Finset.mem_filter.mp hj
  rcases hx.record j hme with hu | hhad
  · simp [hu, NodeStatus.unknown, NodeStatus.fresh] at hr
  · exact ⟨_, hhad, hh, hr⟩

/-- What is prepared after an input was prepared before it, or a quorum had it in hand. -/
lemma Backed.prepared_respond {input : Input} (hm : m.Backed past)
    (hin : Honest past m.own.height input) {rid : Rid}
    (hp : (m.respond input).1.PreparedOn rid) :
    (m.PreparedOn rid ∧ m.own.height = (m.respond input).1.own.height) ∨
      past.Carried m.me (m.respond input).1.own.height rid := by
  have hall : (m.respond input).1.Backed past ∧
      (input.climbs = false → (m.respond input).1.own.height = m.own.height) ∧
      (m.respond input).1.me = m.me ∧
      ((m.respond input).1.PreparedOn rid →
        (m.PreparedOn rid ∧ m.own.height = (m.respond input).1.own.height) ∨
          past.Carried m.me (m.respond input).1.own.height rid) := by
    refine respond_invariant
      (P := fun x => x.Backed past ∧ (input.climbs = false → x.own.height = m.own.height) ∧
        x.me = m.me ∧ (x.PreparedOn rid →
          (m.PreparedOn rid ∧ m.own.height = x.own.height) ∨ past.Carried m.me x.own.height rid))
      ⟨hm, fun _ => rfl, rfl, fun hp => .inl ⟨hp, rfl⟩⟩ ?_
    rintro x y hmove ⟨hx, hh, hme, hearned⟩
    refine ⟨hx.move hin hh hmove, fun hi => (hmove.height_eq hi).trans (hh hi),
      hmove.fixed.1.trans hme, fun hp => ?_⟩
    rcases earnsPrepared_of_move hmove hp with ⟨hpx, hxy⟩ | ⟨-, -, hxy, hq⟩
    · rw [← hxy]
      exact hearned hpx
    · rw [← hxy, ← hme]
      exact .inr (hx.carried hq)
  exact hall.2.2.2 hp

end Manager

namespace Ensemble

open Manager (HoldsOn holdsOn_refl)

variable {base : ℕ} {e e' : Ensemble n} {i j : Fin n} {rid : Rid}

/-- Validator `j` once had the block `rid` in hand at `height`. -/
def Held (e : Ensemble n) (j : Fin n) (height : ℕ) (rid : Rid) : Prop :=
  ∃ s, (j, s) ∈ e.snapshots ∧ s.height = height ∧ s.rid = some rid

/-- The validators that hold the block `rid`. -/
def holding (e : Ensemble n) (rid : Rid) : Finset (Fin n) :=
  Finset.univ.filter fun j => (e.node j).own.rid = some rid

/-- The validators that had the block `rid` in hand at `height` in an earlier round than their own
and do not hold it any more. -/
def deserters (e : Ensemble n) (height : ℕ) (rid : Rid) : Finset (Fin n) :=
  Finset.univ.filter fun j => (e.node j).own.rid ≠ some rid ∧
    ∃ p ∈ e.snapshots, p.1 = j ∧ p.2.height = height ∧ p.2.rid = some rid ∧
      p.2.round < (e.node j).own.round

/-- From `e` to `e'` one validator was told something true and stayed at its height, unless it was
told to leave it. -/
def Consistent.Tells (h : e.Consistent heightOf base) (e' : Ensemble n) : Prop :=
  ∃ i input committed, Honest (e.past h.snapshot_height) (e.node i).own.height input ∧
    e' = e.move i ((e.node i).respond input).1 committed ∧
    (input.climbs = false ∨ (e.node i).own.height < ((e.node i).respond input).1.own.height)

lemma Consistent.tells_of_tell (h : e.Consistent heightOf base) {input : Input}
    (hin : Honest (e.past h.snapshot_height) (e.node i).own.height input)
    (hi : input.climbs = false) (ht : e.tell i input = some e') : h.Tells e' := by
  unfold Ensemble.tell at ht
  split at ht
  · rename_i m a hm
    cases ht
    exact ⟨i, input, [], hin, by rw [Manager.respond_of_handle hm], .inl hi⟩
  · cases ht

lemma Consistent.tells_of_tellCommitted (h : e.Consistent heightOf base) {input : Input}
    (hin : Honest (e.past h.snapshot_height) (e.node i).own.height input)
    (ht : e.tellCommitted i rid input = some e') : h.Tells e' := by
  unfold Ensemble.tellCommitted at ht
  split at ht
  · rename_i m hm
    split at ht
    · rename_i hup
      cases ht
      refine ⟨i, input, [rid], hin, by rw [Manager.respond_of_handle hm], .inr ?_⟩
      rw [Manager.respond_of_handle hm, hup]
      omega
    · cases ht
  · cases ht

/-- An action sends something and changes nobody, or tells one validator something true. -/
lemma Consistent.act_cases (h : e.Consistent heightOf base) {a : Action n}
    (ha : e.act heightOf a = some e') :
    (e'.nodes = e.nodes ∧ e'.snapshots = e.snapshots) ∨ h.Tells e' := by
  cases a with
  | deliver i snapshot =>
    obtain ⟨⟨j, s⟩, hs, ht⟩ := Option.bind_eq_some_iff.mp ha
    refine .inr (h.tells_of_tell ⟨fun k t heq => ?_, by simp, by simp⟩ rfl ht)
    obtain ⟨hk, rfl⟩ := Input.status.inj heq
    obtain rfl := Fin.ext hk
    exact List.mem_of_getElem? hs
  | build i rid signature =>
    simp only [Ensemble.act, Option.ite_none_right_eq_some] at ha
    refine .inr (h.tells_of_tell ⟨by simp, fun r t heq => ?_, by simp⟩ rfl ha.2)
    cases heq
    exact ha.1
  | receive i rid signature => exact .inr (h.tells_of_tell ⟨by simp, by simp, by simp⟩ rfl ha)
  | revolt i => exact .inr (h.tells_of_tell ⟨by simp, by simp, by simp⟩ rfl ha)
  | ask i j =>
    simp only [Ensemble.act] at ha
    split at ha
    · obtain ⟨hj, heq⟩ := Option.ite_none_right_eq_some.mp ha
      cases heq
      exact .inl ⟨rfl, rfl⟩
    · cases ha
  | answer request =>
    obtain ⟨⟨i, j, rid⟩, hr, ha⟩ := Option.bind_eq_some_iff.mp ha
    obtain ⟨hold, heq⟩ := Option.ite_none_right_eq_some.mp ha
    cases heq
    exact .inl ⟨rfl, rfl⟩
  | collect answer signature =>
    obtain ⟨⟨j, i, rid⟩, hs, ht⟩ := Option.bind_eq_some_iff.mp ha
    refine .inr (h.tells_of_tell ⟨by simp, by simp, fun k r t heq => ?_⟩ rfl ht)
    obtain ⟨hk, rfl, -⟩ := Input.commitSignature.inj heq
    obtain rfl := Fin.ext hk
    exact h.answered j i rid (List.mem_of_getElem? hs)
  | commit i =>
    simp only [Ensemble.act] at ha
    split at ha
    · exact .inr (h.tells_of_tellCommitted ⟨by simp, by simp, by simp⟩ ha)
    · cases ha
  | adopt i j =>
    obtain ⟨rid, hr, ht⟩ := Option.bind_eq_some_iff.mp ha
    exact .inr (h.tells_of_tellCommitted ⟨by simp, by simp, by simp⟩ ht)
  | catchUp i j =>
    obtain ⟨rid, hr, ht⟩ := Option.bind_eq_some_iff.mp ha
    exact .inr (h.tells_of_tellCommitted ⟨by simp, by simp, by simp⟩ ht)
  | clock i now => exact .inr (h.tells_of_tell ⟨by simp, by simp, by simp⟩ rfl ha)
  | look i => exact .inr (h.tells_of_tell ⟨by simp, by simp, by simp⟩ rfl ha)

/-! ### Nobody is prepared without a quorum -/

/-- Every block that was ever prepared was in the hands of a quorum, and at the highest height of
all only a later round makes a validator let go of a block. -/
structure Accounted (e : Ensemble n) : Prop where
  earned : ∀ i s rid, (i, s) ∈ e.snapshots → s.phase = .prepared → s.rid = some rid →
    ∃ voters : Finset (Fin n), quorum n ≤ voters.card ∧ ∀ j ∈ voters, e.Held j s.height rid
  holdsOn : ∀ j s, (j, s) ∈ e.snapshots → (∀ p ∈ e.snapshots, p.2.height ≤ s.height) →
    HoldsOn s (e.node j).own

lemma Held.move {m : Manager n} {committed : List Rid} {height : ℕ} (h : e.Held j height rid) :
    (e.move i m committed).Held j height rid := by
  obtain ⟨s, hs, hold⟩ := h
  exact ⟨s, mem_snapshots_move.mpr (.inr hs), hold⟩

lemma Accounted.move (h : e.Accounted) (hc : e.Consistent heightOf base) {input : Input}
    {committed : List Rid}
    (hin : Honest (e.past hc.snapshot_height) (e.node i).own.height input)
    (hup : input.climbs = false ∨
      (e.node i).own.height < ((e.node i).respond input).1.own.height) :
    (e.move i ((e.node i).respond input).1 committed).Accounted where
  earned := by
    intro j s rid hs hp hr
    rcases mem_snapshots_move.mp hs with ⟨rfl, rfl⟩ | hs
    · rcases (hc.backed j).prepared_respond hin ⟨hp, hr⟩ with ⟨hold, hh⟩ | ⟨voters, hq, hv⟩
      · obtain ⟨voters, hq, hv⟩ := h.earned j _ rid (hc.current j) hold.1 hold.2
        rw [← hh]
        exact ⟨voters, hq, fun k hk => (hv k hk).move⟩
      · refine ⟨voters, hq, fun k hk => ?_⟩
        by_cases hkj : k = j
        · subst hkj
          exact ⟨_, hs, rfl, hr⟩
        · obtain ⟨t, ht, hold⟩ := hv k hk (by rwa [hc.me])
          exact ⟨t, mem_snapshots_move.mpr (.inr ht), hold⟩
    · obtain ⟨voters, hq, hv⟩ := h.earned j s rid hs hp hr
      exact ⟨voters, hq, fun k hk => (hv k hk).move⟩
  holdsOn := by
    intro j s hs htop
    have hold : ∀ p ∈ e.snapshots, p.2.height ≤ s.height := fun p hp =>
      htop p (mem_snapshots_move.mpr (.inr hp))
    rcases mem_snapshots_move.mp hs with ⟨rfl, rfl⟩ | hs
    · rw [node_move_self]
      exact holdsOn_refl _
    by_cases hij : i = j
    · subst hij
      -- The snapshot is at the highest height, so it is at that before and after the move.
      have hnew := htop (i, _) (mem_snapshots_move.mpr (.inl ⟨rfl, rfl⟩))
      have hle := (hc.kept i s hs).1
      have hkept := ((hc.backed i).coherent.keptBy_respond input).1
      have hstays : input.climbs = false := hup.resolve_right (by simp only at hnew; omega)
      rw [node_move_self]
      refine (h.holdsOn i s hs hold).trans ((hc.backed i).holdsOn_respond hin hstays ?_)
      intro k t ht
      exact (hold (k, t) ht).trans hle
    · rw [node_move_of_ne hij]
      exact h.holdsOn j s hs hold

lemma Accounted.after (h : e.Accounted) (hc : e.Consistent heightOf base) (a : Action n) :
    (e.after heightOf a).Accounted := by
  unfold Ensemble.after
  cases ha : e.act heightOf a with
  | none => exact h
  | some e' =>
    rcases hc.act_cases ha with ⟨hnodes, hsnapshots⟩ | ⟨i, input, committed, hin, rfl, hup⟩
    · refine ⟨?_, ?_⟩
      · simpa only [Option.getD_some, Held, hsnapshots] using h.earned
      · simpa only [Option.getD_some, node, hnodes, hsnapshots] using h.holdsOn
    · exact h.move hc hin hup

theorem Accounted.run (h : e.Accounted) (hc : e.Consistent heightOf base)
    (actions : List (Action n)) : (e.run heightOf actions).Accounted := by
  induction actions generalizing e with
  | nil => exact h
  | cons a actions ih => exact ih (h.after hc a) (hc.after a)

lemma accounted_start (config : Fin n → Config) (wallMillis : Fin n → ℕ) (base : ℕ) :
    (start config wallMillis base).Accounted where
  earned := by
    intro i s rid hs hp
    rw [mem_snapshots_start] at hs
    subst hs
    rw [node_start, Manager.waits_start] at hp
    cases hp
  holdsOn := by
    intro j s hs _
    rw [mem_snapshots_start] at hs
    rw [hs]
    exact holdsOn_refl _

/-! ### All are prepared -/

/-- Whoever had a block in hand that is prepared at the height of all holds it still or is a
deserter. -/
lemma Accounted.quorum_le (h : e.Accounted) (hc : e.Consistent heightOf base) {height : ℕ}
    (hall : ∀ j, (e.node j).own.phase = .prepared ∧ (e.node j).own.height = height)
    (hr : (e.node i).own.rid = some rid) :
    quorum n ≤ (e.holding rid).card + (e.deserters height rid).card := by
  obtain ⟨voters, hq, hv⟩ := h.earned i _ rid (hc.current i) (hall i).1 hr
  have hsub : voters ⊆ e.holding rid ∪ e.deserters height rid := by
    intro j hj
    obtain ⟨s, hs, hh, hsr⟩ := hv j hj
    rw [(hall i).2] at hh
    rw [Finset.mem_union]
    by_cases hown : (e.node j).own.rid = some rid
    · exact .inl (Finset.mem_filter.mpr ⟨Finset.mem_univ _, hown⟩)
    · refine .inr (Finset.mem_filter.mpr ⟨Finset.mem_univ _, hown, (j, s), hs, rfl, hh, hsr, ?_⟩)
      have htop : ∀ p ∈ e.snapshots, p.2.height ≤ s.height := by
        intro p hp
        rw [hh, ← (hall p.1).2]
        exact (hc.kept p.1 p.2 hp).1
      exact ((h.holdsOn j s hs htop).2 rid hsr).resolve_left hown
  exact hq.trans ((Finset.card_le_card hsub).trans (Finset.card_union_le _ _))

/-- When all validators are prepared at one height, then every block that one of them holds was in
the hands of a quorum at that height: those that hold it now and those that let it go when they went
on to a later round are together at least a quorum. Without such deserters all hold the same
block. -/
theorem locks_split_by_deserters (heightOf : Rid → ℕ) (config : Fin n → Config)
    (wallMillis : Fin n → ℕ) (base : ℕ) (actions : List (Action n)) (height : ℕ) :
    let e : Ensemble n := (start config wallMillis base).run heightOf actions
    (∀ i, (e.node i).own.phase = .prepared ∧ (e.node i).own.height = height) →
      (∀ i rid, (e.node i).own.rid = some rid →
        quorum n ≤ (e.holding rid).card + (e.deserters height rid).card) ∧
      ((∀ rid, e.deserters height rid = ∅) →
        ∀ i j, (e.node i).own.rid = (e.node j).own.rid) := by
  intro e hall
  have hc : e.Consistent heightOf base := (consistent_start config wallMillis base).run actions
  have h : e.Accounted :=
    (accounted_start config wallMillis base).run (consistent_start config wallMillis base) actions
  refine ⟨fun i rid hr => h.quorum_le hc hall hr, fun hloyal i j => ?_⟩
  have holds : ∀ i, ∃ rid, (e.node i).own.rid = some rid := fun i =>
    (hc.backed i).coherent.exists_rid (by rw [(hall i).1]; simp)
  obtain ⟨r, hr⟩ := holds i
  obtain ⟨r', hr'⟩ := holds j
  have hq := h.quorum_le hc hall hr
  have hq' := h.quorum_le hc hall hr'
  rw [hloyal, Finset.card_empty, Nat.add_zero] at hq hq'
  obtain ⟨k, hk, hk'⟩ := quorums_share i.pos hq hq'
  rw [hr, hr', ← (Finset.mem_filter.mp hk).2, ← (Finset.mem_filter.mp hk').2]

/-! ### Locks do split -/

/-- A block other than `Rid.zero`. -/
def otherRid : Rid := ⟨List.replicate 32 1, by simp⟩

/-- Of four validators `a` builds a block on which `d` is prepared before a revolt. The block of the
next round is prepared by `a` and `b` with the help of `c`, who lets it go in the round after that,
hears of `d` again and takes the first block once more. -/
def splitting (a b c d : Fin n) : List (Action n) :=
  [.build a .zero default, .deliver d 0, .receive d .zero default, .deliver c 2,
    .receive c .zero default, .deliver d 0,
    .revolt b, .revolt c, .revolt a, .revolt d, .deliver a 3, .deliver a 3, .deliver c 5,
    .deliver c 3, .deliver b 2, .deliver b 1,
    .build b otherRid default, .deliver a 0, .receive a otherRid default, .deliver c 2,
    .receive c otherRid default, .deliver a 0, .deliver b 0, .deliver b 2, .deliver d 0,
    .deliver d 4,
    .revolt b, .revolt d, .revolt c, .deliver c 2, .deliver c 2, .deliver b 0, .deliver b 4,
    .deliver d 0, .deliver d 3,
    .revolt b, .revolt d, .revolt c, .deliver c 2, .deliver c 2, .receive c .zero default]

/-- What such a run leads to. -/
def deadlock (a b c d : Fin 4) : Ensemble 4 :=
  (start (fun _ => {}) (fun _ => 0) 4).run (fun _ => 4) (splitting a b c d)

lemma own_deadlock :
    let e := deadlock 0 1 2 3
    ∀ i, ((e.node i).own.phase = .prepared ∧ (e.node i).own.height = 4) ∧
      (e.node i).own.rid = some (if i < 2 then otherRid else .zero) := by
  decide +kernel

/-- All four are prepared at one height, and no quorum holds any block. -/
theorem locks_can_split :
    let e := deadlock 0 1 2 3
    (∀ i, (e.node i).own.phase = .prepared ∧ (e.node i).own.height = 4) ∧
      ∀ rid, (e.holding rid).card < quorum 4 := by
  intro e
  refine ⟨fun i => (own_deadlock i).1, fun rid => ?_⟩
  rcases (e.holding rid).eq_empty_or_nonempty with hnone | ⟨i, hi⟩
  · rw [hnone]
    decide
  · have hfew : ∀ i : Fin 4, (e.holding (if i < 2 then otherRid else .zero)).card < quorum 4 := by
      decide +kernel
    have hr := (Finset.mem_filter.mp hi).2
    rw [(own_deadlock i).2, Option.some.injEq] at hr
    rw [← hr]
    exact hfew i

/-- The first validator deserted the one block and the third one the other. -/
theorem locks_split_by_deserters_deadlock :
    let e := deadlock 0 1 2 3
    e.deserters 4 .zero = {0} ∧ e.deserters 4 otherRid = {2} ∧
      quorum 4 ≤ (e.holding .zero).card + 1 ∧ quorum 4 ≤ (e.holding otherRid).card + 1 := by
  intro e
  have hzero : e.deserters 4 .zero = {0} := by decide +kernel
  have hother : e.deserters 4 otherRid = {2} := by decide +kernel
  have h : ∀ i rid, (e.node i).own.rid = some rid →
      quorum 4 ≤ (e.holding rid).card + (e.deserters 4 rid).card :=
    (locks_split_by_deserters (fun _ => 4) (fun _ => {}) (fun _ => 0) 4 (splitting 0 1 2 3) 4
      fun i => (own_deadlock i).1).1
  have hq := h 2 _ (own_deadlock 2).2
  have hq' := h 0 _ (own_deadlock 0).2
  rw [if_neg (by decide), hzero, Finset.card_singleton] at hq
  rw [if_pos (by decide), hother, Finset.card_singleton] at hq'
  exact ⟨hzero, hother, hq, hq'⟩

end Ensemble

end Conclave

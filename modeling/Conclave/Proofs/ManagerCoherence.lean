import Conclave.Proofs.ManagerMoves
import Conclave.Proofs.QuorumCounting

/-!
# Coherence of a status manager

The phase of a status manager, the block it holds, the signatures it keeps and its intent fit
together, whatever the manager is told and however early its recomputes are cut off.
-/

namespace Conclave.Manager

variable {n : ℕ} {m m' x y : Manager n}

/-- How many signatures a table holds. -/
def filled (sigs : Table n (Option Signature)) : ℕ :=
  (List.finRange n).countP fun i => (sigs.get i).isSome

/-- The own status of validator `me`, its signatures and its intent go together. -/
structure Fits (me : Fin n) (own : NodeStatus) (sigs : Table n (Option Signature))
    (intent : Intent) : Prop where
  rid_eq_none : own.rid = none ↔ own.phase = .waitBlock
  sigs_of_waiting : own.phase = .waitBlock → sigs = Vector.replicate n none
  sigs_of_having : own.phase = .haveBlock →
    ∃ s, sigs = Table.put (Vector.replicate n none) me (some s)
  sigs_of_prepared : own.phase = .prepared → (sigs.get me).isSome = true
  intent_of_waiting : own.phase = .waitBlock →
    intent = .doNothing ∨ intent = .buildBlock ∨ intent = .fetchBlockAtHeight own.height ∨
      ∃ rid, intent = .fetchUnfinishedBlock rid
  intent_of_having : own.phase = .haveBlock → intent = .doNothing
  intent_of_prepared : own.phase = .prepared →
    intent = .doNothing ∨ (intent = .commitBlock ∧ quorum n ≤ filled sigs) ∨
      ∃ rid nodes, own.rid = some rid ∧ intent = .fetchCommitSignatures rid nodes

/-- A manager whose parts go together. -/
def Coherent (m : Manager n) : Prop := Fits m.me m.own m.signatures m.intent

lemma Becomes.coherent {own : NodeStatus} {sigs : Table n (Option Signature)} {intent : Intent}
    (h : m.Becomes m' own sigs intent) (hf : Fits m.me own sigs intent) : m'.Coherent := by
  unfold Coherent
  rw [h.me, h.own_eq, h.signatures, h.intent]
  exact hf

lemma fits_waiting {me : Fin n} {own : NodeStatus} {intent : Intent}
    (hp : own.phase = .waitBlock) (hr : own.rid = none)
    (hi : intent = .doNothing ∨ intent = .buildBlock ∨ intent = .fetchBlockAtHeight own.height ∨
      ∃ rid, intent = .fetchUnfinishedBlock rid) :
    Fits me own (Vector.replicate n none) intent where
  rid_eq_none := by simp [hp, hr]
  sigs_of_waiting _ := rfl
  sigs_of_having h := by simp [hp] at h
  sigs_of_prepared h := by simp [hp] at h
  intent_of_waiting _ := hi
  intent_of_having h := by simp [hp] at h
  intent_of_prepared h := by simp [hp] at h

lemma fits_having {me : Fin n} {own : NodeStatus} {rid : Rid} {s : Signature}
    (hp : own.phase = .haveBlock) (hr : own.rid = some rid) :
    Fits me own (Table.put (Vector.replicate n none) me (some s)) .doNothing where
  rid_eq_none := by simp [hp, hr]
  sigs_of_waiting h := by simp [hp] at h
  sigs_of_having _ := ⟨s, rfl⟩
  sigs_of_prepared h := by simp [hp] at h
  intent_of_waiting h := by simp [hp] at h
  intent_of_having _ := rfl
  intent_of_prepared h := by simp [hp] at h

lemma fits_prepared {me : Fin n} {own : NodeStatus} {rid : Rid} {sigs : Table n (Option Signature)}
    {intent : Intent} (hp : own.phase = .prepared) (hr : own.rid = some rid)
    (hs : (sigs.get me).isSome = true)
    (hi : intent = .doNothing ∨ (intent = .commitBlock ∧ quorum n ≤ filled sigs) ∨
      ∃ rid nodes, own.rid = some rid ∧ intent = .fetchCommitSignatures rid nodes) :
    Fits me own sigs intent where
  rid_eq_none := by simp [hp, hr]
  sigs_of_waiting h := by simp [hp] at h
  sigs_of_having h := by simp [hp] at h
  sigs_of_prepared _ := hs
  intent_of_waiting h := by simp [hp] at h
  intent_of_having h := by simp [hp] at h
  intent_of_prepared _ := hi

namespace Coherent

lemma exists_rid (h : m.Coherent) (hp : m.own.phase ≠ .waitBlock) :
    ∃ rid, m.own.rid = some rid :=
  Option.ne_none_iff_exists'.mp fun hn => hp (h.rid_eq_none.mp hn)

lemma prepared_of_committing (h : m.Coherent) (hi : m.intent = .commitBlock) :
    m.own.phase = .prepared := by
  cases hp : m.own.phase with
  | waitBlock =>
    rcases h.intent_of_waiting hp with h | h | h | ⟨rid, h⟩ <;> simp [hi] at h
  | haveBlock =>
    have hn := h.intent_of_having hp
    simp [hi] at hn
  | prepared => rfl

/-- A manager that catches up waits for a block, at its own height. -/
lemma catches_up (h : m.Coherent) {height : ℕ} (hi : m.intent = .fetchBlockAtHeight height) :
    m.own.phase = .waitBlock ∧ height = m.own.height := by
  cases hp : m.own.phase with
  | waitBlock =>
    rcases h.intent_of_waiting hp with h | h | h | ⟨rid, h⟩ <;> simp [hi] at h
    exact ⟨rfl, h⟩
  | haveBlock =>
    have hn := h.intent_of_having hp
    simp [hi] at hn
  | prepared =>
    rcases h.intent_of_prepared hp with h | ⟨h, -⟩ | ⟨rid, nodes, -, h⟩ <;> simp [hi] at h

lemma signed_of_committing (h : m.Coherent) (hp : m.own.phase = .prepared)
    (hi : m.intent = .commitBlock) : quorum n ≤ m.signed := by
  rcases h.intent_of_prepared hp with h | ⟨-, h⟩ | ⟨rid, nodes, -, h⟩
  · simp [hi] at h
  · exact h
  · simp [hi] at h

end Coherent

lemma dropped_phase_ne (s : NodeStatus) : (dropped s).phase ≠ .haveBlock := by
  unfold dropped
  split
  · simp
  · assumption

@[simp] lemma dropped_height (s : NodeStatus) : (dropped s).height = s.height := by
  unfold dropped
  split <;> rfl

@[simp] lemma dropped_round (s : NodeStatus) : (dropped s).round = s.round := by
  unfold dropped
  split <;> rfl

lemma dropped_of_ne {s : NodeStatus} (h : s.phase ≠ .haveBlock) : dropped s = s := if_neg h

lemma keptSignatures_of_ne (h : m.own.phase ≠ .haveBlock) : m.keptSignatures = m.signatures :=
  if_neg h

lemma dropped_prepared_iff (s : NodeStatus) :
    (dropped s).phase = .prepared ↔ s.phase = .prepared := by
  unfold dropped
  split <;> simp [*]

/-- Unless it is prepared, a manager that drops its block waits for one without any signature. -/
lemma Coherent.dropped_waits (h : m.Coherent) (hp : m.own.phase ≠ .prepared) :
    (dropped m.own).phase = .waitBlock ∧ (dropped m.own).rid = none ∧
      m.keptSignatures = Vector.replicate n none := by
  cases hph : m.own.phase with
  | waitBlock =>
    have hne : m.own.phase ≠ .haveBlock := by simp [hph]
    rw [dropped_of_ne hne, keptSignatures_of_ne hne]
    exact ⟨hph, h.rid_eq_none.mpr hph, h.sigs_of_waiting hph⟩
  | haveBlock => simp [dropped, keptSignatures, hph]
  | prepared => exact (hp hph).elim

lemma waitingIntent_cases (m : Manager n) :
    m.waitingIntent = .doNothing ∨ m.waitingIntent = .buildBlock ∨
      ∃ rid, m.waitingIntent = .fetchUnfinishedBlock rid := by
  unfold waitingIntent
  split
  · simp
  · split
    · split <;> simp
    · simp

lemma preparedIntent_cases (m : Manager n) (rid : Rid) :
    m.preparedIntent rid = .doNothing ∨
      ∃ nodes, m.preparedIntent rid = .fetchCommitSignatures rid nodes := by
  unfold preparedIntent
  split <;> simp

theorem Coherent.step (hm : m.Coherent) (h : m.step = some m') : m'.Coherent := by
  cases stride_of_step h with
  | catchUp unprepared behind news becomes =>
    obtain ⟨hp, hr, hs⟩ := hm.dropped_waits unprepared
    rw [hs] at becomes
    exact becomes.coherent (fits_waiting hp hr (by simp))
  | nextRound upToDate revolting votes becomes =>
    by_cases hp : m.own.phase = .prepared
    · have hne : m.own.phase ≠ .haveBlock := by simp [hp]
      obtain ⟨rid, hr⟩ := hm.exists_rid (by simp [hp])
      rw [dropped_of_ne hne, keptSignatures_of_ne hne] at becomes
      exact becomes.coherent
        (fits_prepared hp hr (hm.sigs_of_prepared hp) (hm.intent_of_prepared hp))
    · obtain ⟨hp', hr, hs⟩ := hm.dropped_waits hp
      rw [hs] at becomes
      refine becomes.coherent (fits_waiting hp' hr ?_)
      simp only [dropped_height]
      cases hph : m.own.phase with
      | waitBlock => exact hm.intent_of_waiting hph
      | haveBlock => exact .inl (hm.intent_of_having hph)
      | prepared => exact (hp hph).elim
  | await upToDate calm phase news becomes =>
    have hr := hm.rid_eq_none.mpr phase
    rw [hm.sigs_of_waiting phase] at becomes
    refine becomes.coherent (fits_waiting phase hr ?_)
    rcases m.waitingIntent_cases with h | h | h
    · exact .inl h
    · exact .inr (.inl h)
    · exact .inr (.inr (.inr h))
  | prepare upToDate calm phase held becomes =>
    obtain ⟨rid, hr⟩ := hm.exists_rid (by simp [phase])
    obtain ⟨s, hs⟩ := hm.sigs_of_having phase
    refine becomes.coherent (fits_prepared rfl hr ?_ (.inl (hm.intent_of_having phase)))
    rw [hs, Table.get_put_self]
    rfl
  | commit calm phase news signed becomes =>
    obtain ⟨rid, hr⟩ := hm.exists_rid (by simp [phase])
    exact becomes.coherent
      (fits_prepared phase hr (hm.sigs_of_prepared phase) (.inr (.inl ⟨rfl, signed⟩)))
  | gather calm phase uncommitted unsigned rid held news becomes =>
    refine becomes.coherent (fits_prepared phase held (hm.sigs_of_prepared phase) ?_)
    rcases m.preparedIntent_cases rid with h | ⟨nodes, h⟩
    · exact .inl h
    · exact .inr (.inr ⟨rid, nodes, held, h⟩)

lemma filled_put (sigs : Table n (Option Signature)) (i : Fin n) (s : Signature) :
    filled sigs ≤ filled (sigs.put i (some s)) := by
  apply List.countP_mono_left
  intro j _ hj
  rw [Table.get_put]
  split
  · rfl
  · exact hj

lemma coherent_climb (m : Manager n) : m.climb.Coherent :=
  (becomes_climb m).coherent (fits_waiting rfl rfl (.inl rfl))

/-- Every move keeps a manager coherent. -/
theorem Coherent.move {input : Input} (hm : x.Coherent) (h : Move input x y) : y.Coherent := by
  cases h with
  | rest => exact hm
  | step h => exact hm.step h
  | cutOff => exact hm
  | reject => exact hm
  | setTime => exact hm
  | hear i s told peer fresher =>
    unfold Coherent
    rw [hear_me, hear_own peer, hear_signatures, hear_intent]
    exact hm
  | climb => exact coherent_climb x
  | take rid signature => exact (becomes_take x rid signature).coherent (fits_having rfl rfl)
  | collect i rid signature told phase held =>
    refine (becomes_collect x i signature).coherent (fits_prepared phase held ?_ ?_)
    · rw [Table.get_put]
      split
      · rfl
      · exact hm.sigs_of_prepared phase
    · rcases hm.intent_of_prepared phase with h | ⟨h, hq⟩ | h
      · exact .inl h
      · exact .inr (.inl ⟨h, hq.trans (filled_put _ _ _)⟩)
      · exact .inr (.inr h)
  | rebel =>
    apply (becomes_rebel x).coherent
    exact ⟨hm.rid_eq_none, hm.sigs_of_waiting, hm.sigs_of_having, hm.sigs_of_prepared,
      hm.intent_of_waiting, hm.intent_of_having, hm.intent_of_prepared⟩

lemma Coherent.respond (hm : m.Coherent) (input : Input) : (m.respond input).1.Coherent :=
  respond_invariant hm fun _ _ hmove hx => hx.move hmove

lemma Coherent.recompute (hm : m.Coherent) : m.recompute.Coherent := hm.respond .recompute

lemma coherent_blank (config : Config) (me : Fin n) (height : ℕ) (serial : ℤ) :
    (blank config me height serial).Coherent := by
  have hown : (blank config me height serial).own = .fresh height serial := by
    simp [own, blank]
  unfold Coherent
  rw [hown]
  exact fits_waiting rfl rfl (.inl rfl)

theorem coherent_start (config : Config) (me : Fin n) (height wallMillis : ℕ) :
    (start config me height wallMillis).Coherent :=
  start_invariant (coherent_blank config me height) (fun _ _ h hx => hx.move h) (fun _ h => h)
    wallMillis

/-- Whatever it is told, a manager stays coherent. -/
theorem Coherent.run {inputs : List Input} (hm : m.Coherent) (h : m.run inputs = .ok m') :
    m'.Coherent :=
  run_invariant hm (fun _ _ _ hmove hx => hx.move hmove) h

end Conclave.Manager

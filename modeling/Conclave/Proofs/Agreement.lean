import Conclave.Proofs.Ensemble

/-!
# Agreement

No two validators of an ensemble commit different blocks at one height. A signature over a block is
given only by validators that were prepared on it or have committed it, so a quorum was once
prepared on every committed block; a validator is prepared on one block at each height, and two
quorums share a validator.
-/

namespace Conclave.Ensemble

open Manager (Input Past Honest KeptBy)

variable {n : ℕ} {heightOf : Rid → ℕ} {base : ℕ} {e e' : Ensemble n}

/-- The past of an ensemble, as its managers know it. -/
def past (e : Ensemble n)
    (h : ∀ j s rid, (j, s) ∈ e.snapshots → s.rid = some rid → heightOf rid = s.height) :
    Past n heightOf where
  had j s := (j, s) ∈ e.snapshots
  signed := e.Signed
  rid_height := h

/-- What holds of an ensemble of validators that started at the height `base`. -/
structure Consistent (heightOf : Rid → ℕ) (base : ℕ) (e : Ensemble n) : Prop where
  me : ∀ i, (e.node i).me = i
  snapshot_height : ∀ j s rid, (j, s) ∈ e.snapshots → s.rid = some rid → heightOf rid = s.height
  backed : ∀ i, (e.node i).Backed (e.past snapshot_height)
  height : ∀ i, (e.node i).own.height = base + (e.chain i).length
  current : ∀ i, (i, (e.node i).own) ∈ e.snapshots
  kept : ∀ i s, (i, s) ∈ e.snapshots → KeptBy s (e.node i).own
  unique : ∀ i s s', (i, s) ∈ e.snapshots → (i, s') ∈ e.snapshots → s.phase = .prepared →
    s'.phase = .prepared → s.height = s'.height → s.rid = s'.rid
  asked : ∀ i j rid, (i, j, rid) ∈ e.requests → (e.past snapshot_height).Vouched j rid
  answered : ∀ j i rid, (j, i, rid) ∈ e.answers → e.Signed j rid
  chain_height : ∀ i p rid, (e.chain i)[p]? = some rid → heightOf rid = base + p
  final : ∀ i rid, rid ∈ e.chain i → e.Final rid

/-! ### Moves keep an ensemble consistent -/

section Move

variable {i : Fin n} {m : Manager n} {committed : List Rid}

lemma Consistent.unique_move (h : e.Consistent heightOf base)
    (hkept : KeptBy (e.node i).own m.own) {j : Fin n} {s : NodeStatus} (hj : (j, s) ∈ e.snapshots)
    (hi : j = i) (hp : s.phase = .prepared) (hh : s.height = m.own.height) :
    s.rid = m.own.rid := by
  subst hi
  rcases ((h.kept j s hj).trans hkept).2 hp with hlt | ⟨-, -, hr⟩
  · omega
  · exact hr.symm

theorem Consistent.move (h : e.Consistent heightOf base) (hme : m.me = i)
    (hbacked : m.Backed (e.past h.snapshot_height)) (hkept : KeptBy (e.node i).own m.own)
    (hheight : m.own.height = (e.node i).own.height + committed.length)
    (hcommitted : ∀ p rid, committed[p]? = some rid →
      heightOf rid = (e.node i).own.height + p ∧ e.Final rid) :
    (e.move i m committed).Consistent heightOf base := by
  have hsnapshot : ∀ j s rid, (j, s) ∈ (e.move i m committed).snapshots → s.rid = some rid →
      heightOf rid = s.height := by
    intro j s rid hs hr
    rcases mem_snapshots_move.mp hs with ⟨-, rfl⟩ | hs
    · exact hbacked.rid_height rid hr
    · exact h.snapshot_height j s rid hs hr
  have hhad : ∀ j s, (e.past h.snapshot_height).had j s →
      ((e.move i m committed).past hsnapshot).had j s := fun j s hs =>
    mem_snapshots_move.mpr (.inr hs)
  have hsigned : ∀ j rid, (e.past h.snapshot_height).signed j rid →
      ((e.move i m committed).past hsnapshot).signed j rid := fun j rid hs => Signed.move hs
  refine ⟨?me, hsnapshot, ?backed, ?height, ?current, ?kept, ?unique, ?asked, ?answered,
    ?chain_height, ?final⟩
  case me =>
    intro j
    rw [node_move]
    split
    · rename_i hij
      rw [hme, hij]
    · exact h.me j
  case backed =>
    intro j
    rw [node_move]
    split
    · exact hbacked.mono hhad hsigned
    · exact (h.backed j).mono hhad hsigned
  case height =>
    intro j
    by_cases hij : i = j
    · subst hij
      have hi := h.height i
      simp only [node_move_self, chain_move_self, List.length_append]
      omega
    · rw [node_move_of_ne hij, chain_move_of_ne hij]
      exact h.height j
  case current =>
    intro j
    rw [mem_snapshots_move]
    by_cases hij : i = j
    · subst hij
      exact .inl ⟨rfl, by rw [node_move_self]⟩
    · rw [node_move_of_ne hij]
      exact .inr (h.current j)
  case kept =>
    intro j s hs
    rcases mem_snapshots_move.mp hs with ⟨rfl, rfl⟩ | hs
    · rw [node_move_self]
      exact ⟨le_rfl, fun hp => .inr ⟨rfl, hp, rfl⟩⟩
    · by_cases hij : i = j
      · subst hij
        rw [node_move_self]
        exact (h.kept i s hs).trans hkept
      · rw [node_move_of_ne hij]
        exact h.kept j s hs
  case unique =>
    intro j s s' hs hs' hp hp' hh
    rcases mem_snapshots_move.mp hs with ⟨hj, rfl⟩ | hs
    · rcases mem_snapshots_move.mp hs' with ⟨-, rfl⟩ | hs'
      · rfl
      · exact (h.unique_move hkept hs' hj hp' hh.symm).symm
    · rcases mem_snapshots_move.mp hs' with ⟨hj, rfl⟩ | hs'
      · exact h.unique_move hkept hs hj hp hh
      · exact h.unique j s s' hs hs' hp hp' hh
  case asked =>
    intro k j rid hr
    obtain ⟨s, hs, hv⟩ := h.asked k j rid hr
    exact ⟨s, hhad j s hs, hv⟩
  case answered =>
    intro j k rid ha
    exact (h.answered j k rid ha).move
  case chain_height =>
    intro j p rid hp
    by_cases hij : i = j
    · subst hij
      rw [chain_move_self, List.getElem?_append] at hp
      split at hp
      · exact h.chain_height i p rid hp
      · have hi := h.height i
        have hr := (hcommitted _ rid hp).1
        omega
    · rw [chain_move_of_ne hij] at hp
      exact h.chain_height j p rid hp
  case final =>
    intro j rid hr
    by_cases hij : i = j
    · subst hij
      rw [chain_move_self, List.mem_append] at hr
      rcases hr with hr | hr
      · exact (h.final i rid hr).move
      · obtain ⟨p, hp⟩ := List.mem_iff_getElem?.mp hr
        exact (hcommitted p rid hp).2.move
    · rw [chain_move_of_ne hij] at hr
      exact (h.final j rid hr).move

end Move

/-! ### Actions keep an ensemble consistent -/

section Actions

variable {i j : Fin n} {rid : Rid} {input : Input}

lemma Consistent.tell (h : e.Consistent heightOf base)
    (hin : Honest (e.past h.snapshot_height) (e.node i).own.height input)
    (hi : input.climbs = false) (ht : e.tell i input = some e') :
    e'.Consistent heightOf base := by
  unfold Ensemble.tell at ht
  split at ht
  · rename_i m a hm
    cases ht
    have hr : ((e.node i).respond input).1 = m := by rw [Manager.respond_of_handle hm]
    subst hr
    refine h.move ?_ ((h.backed i).respond hin) ((h.backed i).coherent.keptBy_respond input) ?_ ?_
    · rw [(Manager.fixed_respond _ input).1, h.me]
    · simp [Manager.height_respond hi]
    · simp
  · cases ht

lemma Consistent.tellCommitted (h : e.Consistent heightOf base)
    (hin : Honest (e.past h.snapshot_height) (e.node i).own.height input)
    (hrid : heightOf rid = (e.node i).own.height) (hfinal : e.Final rid)
    (ht : e.tellCommitted i rid input = some e') : e'.Consistent heightOf base := by
  unfold Ensemble.tellCommitted at ht
  split at ht
  · rename_i m hm
    split at ht
    · rename_i hup
      cases ht
      have hr : ((e.node i).respond input).1 = m := by rw [Manager.respond_of_handle hm]
      subst hr
      refine h.move ?_ ((h.backed i).respond hin) ((h.backed i).coherent.keptBy_respond input)
        hup ?_
      · rw [(Manager.fixed_respond _ input).1, h.me]
      · intro p r hp
        rcases p with - | p
        · obtain rfl : rid = r := by simpa using hp
          exact ⟨hrid, hfinal⟩
        · simp at hp
    · cases ht
  · cases ht

/-- Whoever was above the height of a block signs it only once it has committed it. -/
lemma Consistent.signed_of_vouched (h : e.Consistent heightOf base)
    (hv : (e.past h.snapshot_height).Vouched j rid)
    (hold : (e.node j).own.rid = some rid ∨ rid ∈ e.chain j) : e.Signed j rid := by
  rcases hold with hr | hr
  · obtain ⟨s, hs, hv⟩ := hv
    have hown := (h.backed j).rid_height rid hr
    have hle := (h.kept j s hs).1
    rcases hv with hlt | ⟨hp, hrid⟩
    · omega
    · exact .inl ⟨s, hs, hp, hrid⟩
  · exact .inr hr

/-- A block that is committed with a quorum of signatures is final. -/
lemma Consistent.final_of_committing (h : e.Consistent heightOf base)
    (hi : (e.node i).intent = .commitBlock) (hr : (e.node i).own.rid = some rid) :
    e.Final rid := by
  have hm := h.backed i
  have hp := hm.coherent.prepared_of_committing hi
  have hq := hm.coherent.signed_of_committing hp hi
  rw [Manager.signed_eq_card] at hq
  have hsigned : ∀ j, ((e.node i).signatures.get j).isSome = true → e.Signed j rid := by
    intro j hj
    by_cases hji : j = i
    · subst hji
      exact .inl ⟨_, h.current j, hp, hr⟩
    · exact hm.signed hp rid hr j (by rwa [h.me]) hj
  -- A single signer that has committed the block settles the matter already.
  by_cases hc : ∃ j, rid ∈ e.chain j
  · obtain ⟨j, hj⟩ := hc
    exact h.final j rid hj
  · refine ⟨_, hq, fun j hj => ?_⟩
    rcases hsigned j (by simpa using hj) with hl | hj
    · exact hl
    · exact (hc ⟨j, hj⟩).elim

lemma Consistent.next (h : e.Consistent heightOf base)
    (hr : (e.chain j)[(e.chain i).length]? = some rid) :
    heightOf rid = (e.node i).own.height ∧ e.Final rid := by
  rw [h.height i]
  exact ⟨h.chain_height j _ rid hr, h.final j rid (List.mem_of_getElem? hr)⟩

lemma Consistent.ask (h : e.Consistent heightOf base) {nodes : List ℕ}
    (hi : (e.node i).intent = .fetchCommitSignatures rid nodes) (hj : j.val ∈ nodes) :
    ({ e with requests := (i, j, rid) :: e.requests } : Ensemble n).Consistent heightOf base where
  me := h.me
  snapshot_height := h.snapshot_height
  backed := h.backed
  height := h.height
  current := h.current
  kept := h.kept
  unique := h.unique
  asked k l r hr := by
    rcases List.mem_cons.mp hr with heq | hr
    · cases heq
      exact (h.backed i).sources rid nodes hi j hj
    · exact h.asked k l r hr
  answered := h.answered
  chain_height := h.chain_height
  final := h.final

lemma Consistent.answer (h : e.Consistent heightOf base) (hs : e.Signed j rid) :
    ({ e with answers := (j, i, rid) :: e.answers } : Ensemble n).Consistent heightOf base where
  me := h.me
  snapshot_height := h.snapshot_height
  backed := h.backed
  height := h.height
  current := h.current
  kept := h.kept
  unique := h.unique
  asked := h.asked
  answered k l r ha := by
    rcases List.mem_cons.mp ha with heq | ha
    · cases heq
      exact hs
    · exact h.answered k l r ha
  chain_height := h.chain_height
  final := h.final

/-- Every action keeps an ensemble consistent. -/
theorem Consistent.act (h : e.Consistent heightOf base) {a : Action n}
    (ha : e.act heightOf a = some e') : e'.Consistent heightOf base := by
  cases a with
  | deliver i snapshot =>
    obtain ⟨⟨j, s⟩, hs, ht⟩ := Option.bind_eq_some_iff.mp ha
    refine h.tell ⟨fun k t heq => ?_, by simp, by simp⟩ rfl ht
    obtain ⟨hk, rfl⟩ := Input.status.inj heq
    obtain rfl := Fin.ext hk
    exact List.mem_of_getElem? hs
  | build i rid signature =>
    simp only [Ensemble.act, Option.ite_none_right_eq_some] at ha
    refine h.tell ⟨by simp, fun r t heq => ?_, by simp⟩ rfl ha.2
    cases heq
    exact ha.1
  | receive i rid signature => exact h.tell ⟨by simp, by simp, by simp⟩ rfl ha
  | revolt i => exact h.tell ⟨by simp, by simp, by simp⟩ rfl ha
  | ask i j =>
    simp only [Ensemble.act] at ha
    split at ha
    · rename_i rid nodes hi
      obtain ⟨hj, heq⟩ := Option.ite_none_right_eq_some.mp ha
      cases heq
      exact h.ask hi hj
    · cases ha
  | answer request =>
    obtain ⟨⟨i, j, rid⟩, hr, ha⟩ := Option.bind_eq_some_iff.mp ha
    obtain ⟨hold, heq⟩ := Option.ite_none_right_eq_some.mp ha
    cases heq
    exact h.answer (h.signed_of_vouched (h.asked i j rid (List.mem_of_getElem? hr)) hold)
  | collect answer signature =>
    obtain ⟨⟨j, i, rid⟩, hs, ht⟩ := Option.bind_eq_some_iff.mp ha
    refine h.tell ⟨by simp, by simp, fun k r t heq => ?_⟩ rfl ht
    obtain ⟨hk, rfl, -⟩ := Input.commitSignature.inj heq
    obtain rfl := Fin.ext hk
    exact h.answered j i rid (List.mem_of_getElem? hs)
  | commit i =>
    simp only [Ensemble.act] at ha
    split at ha
    · rename_i rid hi hr
      exact h.tellCommitted ⟨by simp, by simp, by simp⟩ ((h.backed i).rid_height rid hr)
        (h.final_of_committing hi hr) ha
    · cases ha
  | adopt i j =>
    obtain ⟨rid, hr, ht⟩ := Option.bind_eq_some_iff.mp ha
    obtain ⟨hheight, hfinal⟩ := h.next hr
    exact h.tellCommitted ⟨by simp, by simp, by simp⟩ hheight hfinal ht
  | catchUp i j =>
    obtain ⟨rid, hr, ht⟩ := Option.bind_eq_some_iff.mp ha
    obtain ⟨hheight, hfinal⟩ := h.next hr
    exact h.tellCommitted ⟨by simp, by simp, by simp⟩ hheight hfinal ht
  | clock i now => exact h.tell ⟨by simp, by simp, by simp⟩ rfl ha
  | look i => exact h.tell ⟨by simp, by simp, by simp⟩ rfl ha

end Actions

/-! ### Whole runs -/

section Runs

variable {config : Fin n → Config} {wallMillis : Fin n → ℕ}

lemma node_start (i : Fin n) :
    (start config wallMillis base).node i = Manager.start (config i) i base (wallMillis i) := by
  simp [start, node, Table.get_eq_getElem]

lemma chain_start (i : Fin n) : (start config wallMillis base).chain i = [] := by
  simp [start, chain]

lemma mem_snapshots_start {i : Fin n} {s : NodeStatus} :
    (i, s) ∈ (start config wallMillis base).snapshots ↔
      s = ((start config wallMillis base).node i).own := by
  rw [node_start]
  simp [start, eq_comm]

lemma consistent_start (config : Fin n → Config) (wallMillis : Fin n → ℕ) (base : ℕ) :
    (start config wallMillis base).Consistent heightOf base := by
  have hbacked : ∀ (past : Past n heightOf) i,
      ((start config wallMillis base).node i).Backed past := by
    intro past i
    rw [node_start]
    exact Manager.backed_start (config i) i base (wallMillis i)
  have hsnapshot : ∀ j s rid, (j, s) ∈ (start config wallMillis base).snapshots →
      s.rid = some rid → heightOf rid = s.height := by
    intro j s rid hs hr
    rw [mem_snapshots_start] at hs
    subst hs
    exact (hbacked ⟨fun _ _ => False, fun _ _ => False, fun _ _ _ h => h.elim⟩ j).rid_height rid hr
  refine ⟨?me, hsnapshot, hbacked _, ?height, ?current, ?kept, ?unique, ?asked, ?answered,
    ?chain_height, ?final⟩
  case me =>
    intro i
    rw [node_start]
    exact (Manager.fixed_start (config i) i base (wallMillis i)).1
  case height =>
    intro i
    rw [node_start, chain_start]
    exact Manager.height_start (config i) i base (wallMillis i)
  case current => exact fun i => mem_snapshots_start.mpr rfl
  case kept =>
    intro i s hs
    rw [mem_snapshots_start] at hs
    subst hs
    exact ⟨le_rfl, fun hp => .inr ⟨rfl, hp, rfl⟩⟩
  case unique =>
    intro i s s' hs hs' _ _ _
    rw [mem_snapshots_start] at hs hs'
    rw [hs, hs']
  case asked => simp [start]
  case answered => simp [start]
  case chain_height => simp [chain_start]
  case final => simp [chain_start]

lemma Consistent.after (h : e.Consistent heightOf base) (a : Action n) :
    (e.after heightOf a).Consistent heightOf base := by
  unfold Ensemble.after
  cases ha : e.act heightOf a with
  | none => exact h
  | some e' => exact h.act ha

/-- Whatever happens, an ensemble stays consistent. -/
theorem Consistent.run (h : e.Consistent heightOf base) (actions : List (Action n)) :
    (e.run heightOf actions).Consistent heightOf base := by
  induction actions generalizing e with
  | nil => exact h
  | cons a actions ih => exact ih (h.after a)

/-- Two blocks of one height that a quorum was once prepared on are the same. -/
theorem Consistent.final_unique (h : e.Consistent heightOf base) (hn : 0 < n) {rid rid' : Rid}
    (hr : e.Final rid) (hr' : e.Final rid') (hh : heightOf rid = heightOf rid') : rid = rid' := by
  obtain ⟨voters, hq, hv⟩ := hr
  obtain ⟨voters', hq', hv'⟩ := hr'
  obtain ⟨j, hj, hj'⟩ := quorums_share hn hq hq'
  obtain ⟨s, hs, hp, hrid⟩ := hv j hj
  obtain ⟨s', hs', hp', hrid'⟩ := hv' j hj'
  have hheight : s.height = s'.height := by
    rw [← h.snapshot_height j s rid hs hrid, ← h.snapshot_height j s' rid' hs' hrid', hh]
  have heq := h.unique j s s' hs hs' hp hp' hheight
  rw [hrid, hrid'] at heq
  exact Option.some.inj heq

/-- Validators that start at one height and run this program agree on every block that two of them
have committed, whatever the network does. The chain of a validator is as long as its height says,
and its blocks have the heights they stand at. -/
theorem chains_agree (heightOf : Rid → ℕ) (config : Fin n → Config) (wallMillis : Fin n → ℕ)
    (base : ℕ) (actions : List (Action n)) :
    let e : Ensemble n := (start config wallMillis base).run heightOf actions
    (∀ (i j : Fin n) (p : ℕ) (rid rid' : Rid),
      (e.chain i)[p]? = some rid → (e.chain j)[p]? = some rid' → rid = rid') ∧
      ∀ i, (e.node i).own.height = base + (e.chain i).length ∧
        ∀ p rid, (e.chain i)[p]? = some rid → heightOf rid = base + p := by
  intro e
  have h : e.Consistent heightOf base := (consistent_start config wallMillis base).run actions
  refine ⟨fun i j p rid rid' hr hr' => ?_, fun i => ⟨h.height i, h.chain_height i⟩⟩
  apply h.final_unique i.pos
  · exact h.final i rid (List.mem_of_getElem? hr)
  · exact h.final j rid' (List.mem_of_getElem? hr')
  · rw [h.chain_height i p rid hr, h.chain_height j p rid' hr']

/-- Two validators commit a block, one with the signature of the other, who then takes it over. -/
example :
    let e : Ensemble 2 := (start (fun _ => {}) (fun _ => 0) 2).run (fun _ => 2)
      [.build 0 .zero default, .deliver 1 0, .receive 1 .zero default, .deliver 0 0, .ask 0 1,
        .answer 0, .collect 0 default, .commit 0, .adopt 1 0]
    e.chain 0 = [.zero] ∧ e.chain 1 = [.zero] := by
  decide +kernel

end Runs

end Conclave.Ensemble

import Conclave.Proofs.IntentOfRecords

/-!
# Faulty peers

As long as the other validators are recorded at the own height, in no later round and without a
revolt, the few that may be faulty have no say: whatever statuses and signatures they send, they
neither push the manager out of its height, its round or its block nor make it catch up. All they
can bring about is that the block at hand is prepared.
-/

namespace Conclave

variable {n : ℕ}

/-- All validators but those that may be faulty are a quorum. -/
lemma quorum_le_card_of_compl_subset {A F : Finset (Fin n)} (hF : F.card ≤ (n - 1) / 3)
    (hA : ∀ i ∉ F, i ∈ A) : quorum n ≤ A.card := by
  have hothers : Fᶜ ⊆ A := fun i hi => hA i (Finset.mem_compl.mp hi)
  have hcard := Finset.card_le_card hothers
  rw [Finset.card_compl, Fintype.card_fin] at hcard
  unfold quorum
  split <;> omega

/-- One validator and all those that may be faulty are not a quorum. -/
lemma card_lt_quorum_of_subset_insert {A F : Finset (Fin n)} (me : Fin n) (hn : 2 ≤ n)
    (hF : F.card ≤ (n - 1) / 3) (hA : A ⊆ insert me F) : A.card < quorum n := by
  have hcard := (Finset.card_le_card hA).trans (Finset.card_insert_le me F)
  unfold quorum
  split <;> omega

namespace Manager

variable {m m' x y : Manager n} {F : Finset (Fin n)}

/-- Outside of `F` all are recorded at the own height, in no later round, and no peer revolts. -/
def CalmOutside (F : Finset (Fin n)) (m : Manager n) : Prop :=
  ∀ i ∉ F, (m.statuses.get i).height = m.own.height ∧ (m.statuses.get i).round ≤ m.own.round ∧
    (i ≠ m.me → (m.statuses.get i).revolting = false)

lemma CalmOutside.behind_eq (h : m.CalmOutside F) (hF : F.card ≤ (n - 1) / 3) :
    m.behind = false := by
  rw [← Bool.not_eq_true, behind_iff]
  rintro ⟨hfew, -⟩
  have hmany := quorum_le_card_of_compl_subset hF
    (A := Finset.univ.filter fun i => (m.statuses.get i).height = m.own.height)
    fun i hi => by simp [(h i hi).1]
  omega

/-- The votes against the primary are those of `F` and the own one. -/
lemma CalmOutside.revoltVotes_lt (h : m.CalmOutside F) (hn : 2 ≤ n)
    (hF : F.card ≤ (n - 1) / 3) : m.revoltVotes < quorum n := by
  unfold revoltVotes
  rw [tally_eq_card]
  refine card_lt_quorum_of_subset_insert m.me hn hF fun i hi => ?_
  obtain ⟨-, hvote⟩ : _ ∧ _ := by simpa using hi
  by_contra hout
  obtain ⟨hme, hiF⟩ : i ≠ m.me ∧ i ∉ F := by simpa using hout
  obtain ⟨-, hround, hcalm⟩ := h i hiF
  rcases hvote with ⟨-, hrevolting⟩ | hlater
  · simp [hcalm hme] at hrevolting
  · omega

/-! ### What faulty peers bring about -/

/-- A status or a commit signature in the name of a validator of `F`. -/
def Input.StemsFrom (F : Finset (Fin n)) (input : Input) : Prop :=
  ∃ i ∈ F, (∃ s, input = .status i s) ∨ ∃ rid signature, input = .commitSignature i rid signature

/-- All that sets `x` apart from `m` is what `F` may have said, a block that was in hand and is
prepared now, the signatures over it and an intent that does not catch up. -/
structure Contained (F : Finset (Fin n)) (m x : Manager n) : Prop where
  me : x.me = m.me
  record : ∀ i ∉ F, i ≠ m.me → x.statuses.get i = m.statuses.get i
  own : x.own = m.own ∨ (m.own.phase = .haveBlock ∧
    x.own = { m.own with phase := .prepared, serial := m.own.serial + 1 })
  intent : ∀ height, x.intent ≠ .fetchBlockAtHeight height

lemma Contained.calmOutside (h : Contained F m x) (hm : m.CalmOutside F) : x.CalmOutside F := by
  have hown : x.own.height = m.own.height ∧ x.own.round = m.own.round := by
    rcases h.own with ho | ⟨-, ho⟩ <;> simp [ho]
  intro i hi
  by_cases hme : i = m.me
  · rw [hme, ← h.me]
    exact ⟨rfl, le_rfl, fun hne => (hne rfl).elim⟩
  · rw [h.record i hi hme, hown.1, hown.2, h.me]
    exact hm i hi

lemma Becomes.contained {intent : Intent} {own : NodeStatus} {sigs : Table n (Option Signature)}
    (becomes : x.Becomes y own sigs intent) (h : Contained F m x)
    (hown : own = m.own ∨ (m.own.phase = .haveBlock ∧
      own = { m.own with phase := .prepared, serial := m.own.serial + 1 }))
    (hintent : ∀ height, intent ≠ .fetchBlockAtHeight height) : Contained F m y where
  me := becomes.me.trans h.me
  record i hi hme := (becomes.peer (by rwa [h.me])).trans (h.record i hi hme)
  own := by
    rw [becomes.own_eq]
    exact hown
  intent := by
    rw [becomes.intent]
    exact hintent

/-- A step neither catches up nor advances the round: the quorum for either is out of reach. -/
lemma Contained.step (h : Contained F m x) (hm : m.CalmOutside F) (hn : 2 ≤ n)
    (hF : F.card ≤ (n - 1) / 3) (hs : x.step = some y) : Contained F m y := by
  have hcalm := h.calmOutside hm
  cases stride_of_step hs with
  | catchUp unprepared behind news becomes => simp [hcalm.behind_eq hF] at behind
  | nextRound upToDate revolting votes becomes =>
    have hvotes := hcalm.revoltVotes_lt hn hF
    omega
  | await upToDate calm phase news becomes =>
    refine becomes.contained h h.own fun height => ?_
    rcases x.waitingIntent_cases with hi | hi | ⟨rid, hi⟩ <;> simp [hi]
  | prepare upToDate calm phase held becomes =>
    refine becomes.contained h (.inr ?_) h.intent
    rcases h.own with ho | ⟨-, ho⟩
    · rw [← ho]
      exact ⟨phase, rfl⟩
    · simp [ho] at phase
  | commit calm phase news signed becomes => exact becomes.contained h h.own (by simp)
  | gather calm phase uncommitted unsigned rid held news becomes =>
    refine becomes.contained h h.own fun height => ?_
    rcases x.preparedIntent_cases rid with hi | ⟨nodes, hi⟩ <;> simp [hi]

lemma Contained.hear (h : Contained F m x) {i : Fin n} (hi : i ∈ F) (hme : i ≠ x.me)
    (s : NodeStatus) : Contained F m (x.hear i s) where
  me := (hear_me x i s).trans h.me
  record j hj hjme := by
    have hij : i ≠ j := fun he => hj (he ▸ hi)
    rw [hear_statuses, Table.get_put_of_ne _ _ hij]
    exact h.record j hj hjme
  own := by
    rw [hear_own hme]
    exact h.own
  intent := by
    rw [hear_intent]
    exact h.intent

lemma Contained.move {input : Input} (h : Contained F m x) (hm : m.CalmOutside F) (hn : 2 ≤ n)
    (hF : F.card ≤ (n - 1) / 3) (hi : input.StemsFrom F) (hmove : Move input x y) :
    Contained F m y := by
  obtain ⟨i, hiF, hsaid⟩ := hi
  cases hmove with
  | rest => exact h
  | step hs => exact h.step hm hn hF hs
  | cutOff => exact (becomes_cutOff x).contained h h.own h.intent
  | reject => exact (x.becomes_self.record _).contained h h.own h.intent
  | setTime => exact ⟨h.me, h.record, h.own, h.intent⟩
  | hear j s told peer fresher =>
    rcases hsaid with ⟨t, rfl⟩ | ⟨rid, signature, rfl⟩
    · obtain ⟨hj, -⟩ := Input.status.inj told
      rw [← Fin.ext hj]
      exact h.hear hiF (by rwa [Fin.ext hj]) s
    · cases told
  | climb told => rcases hsaid with ⟨t, rfl⟩ | ⟨rid, signature, rfl⟩ <;> cases told
  | take rid signature wanted =>
    rcases hsaid with ⟨t, rfl⟩ | ⟨r, s, rfl⟩ <;> rcases wanted with ⟨he, -⟩ | ⟨he, -⟩ <;> cases he
  | collect j rid signature => exact (becomes_collect x j signature).contained h h.own h.intent
  | rebel told => rcases hsaid with ⟨t, rfl⟩ | ⟨rid, signature, rfl⟩ <;> cases told

/-! ### Runs -/

/-- What every move preserves that the given inputs allow holds at all moments of their run. -/
theorem trail_invariant_of_mem {P : Manager n → Prop} {inputs : List Input} (hP : P m)
    (hmove : ∀ input ∈ inputs, ∀ x y, Move input x y → P x → P y) :
    ∀ x ∈ m.trail inputs, P x := by
  induction inputs generalizing m with
  | nil => simpa [trail] using hP
  | cons input inputs ih =>
    have hinput := hmove input List.mem_cons_self
    have hmoments := moments_invariant hP hinput
    unfold trail
    split
    · exact hmoments
    · rename_i m' a hr
      have hm' : P m' := by
        have hlast := respond_invariant hP hinput
        rwa [respond_of_handle hr] at hlast
      intro x hx
      rcases List.mem_append.mp hx with hx | hx
      · exact hmoments x hx
      · exact ih hm' (fun i hi => hmove i (List.mem_cons_of_mem _ hi)) x hx

/-- A run ends without a fault if all its moments stay within the range of the counters. -/
lemma run_ok_of_inRange {inputs : List Input}
    (h : ∀ x ∈ m.trail inputs, x.own.inRange = true) : ∃ m', m.run inputs = .ok m' := by
  induction inputs generalizing m with
  | nil => exact ⟨m, rfl⟩
  | cons input inputs ih =>
    have hlast : (m.respond input).1 ∈ m.moments input :=
      List.mem_of_getLast? (isPath_moments m input).last
    have hin : (m.respond input).1.own.inRange = true := by
      apply h
      unfold trail
      split
      · exact hlast
      · exact List.mem_append_left _ hlast
    rw [trail_cons hin] at h
    obtain ⟨m', hm'⟩ := ih fun x hx => h x (List.mem_append_right _ hx)
    exact ⟨m', run_cons_eq_ok.mpr ⟨hin, hm'⟩⟩

lemma Contained.inRange (h : Contained F m x) (hm : m.own.inRange = true)
    (hserial : m.own.serial < Word.maxSigned) : x.own.inRange = true := by
  rcases h.own with ho | ⟨-, ho⟩
  · rwa [ho]
  · rw [ho]
    simp only [NodeStatus.inRange, decide_eq_true_eq] at hm ⊢
    omega

lemma Ready.intent_ne_of_upToDate (h : m.Ready) (hb : m.behind = false) (height : ℕ) :
    m.intent ≠ .fetchBlockAtHeight height := by
  intro hi
  obtain ⟨hp, -⟩ := h.coherent.catches_up hi
  rw [h.settled.waiting hp hb] at hi
  rcases m.waitingIntent_cases with hw | hw | ⟨rid, hw⟩ <;> simp [hw] at hi

/-- A reachable manager may be told anything in the name of at most a third of its peers: if all
others are recorded at its height, not in a later round and, but for itself, not revolting, then at
every moment its own status is what it was, save that a block in hand may have become prepared, and
it does not catch up. Unless its serial has no room left, nothing that it is told ends in a
fault. -/
theorem faulty_peers_contained {config : Config} {me : Fin n} {height wallMillis : ℕ}
    {inputs : List Input} (hn : 2 ≤ n) (hlimit : 3 ≤ config.maxIterations)
    (hrun : (start config me height wallMillis).run inputs = .ok m)
    (hF : F.card ≤ (n - 1) / 3)
    (hcalm : ∀ i ∉ F, (m.statuses.get i).height = m.own.height ∧
      (m.statuses.get i).round ≤ m.own.round ∧
        (i ≠ me → (m.statuses.get i).revolting = false))
    {lies : List Input}
    (hlies : ∀ input ∈ lies, ∃ i ∈ F, (∃ s, input = .status i s) ∨
      ∃ rid signature, input = .commitSignature i rid signature) :
    (∀ x ∈ m.trail lies,
      (x.own = m.own ∨ (m.own.phase = .haveBlock ∧
        x.own = { m.own with phase := .prepared, serial := m.own.serial + 1 })) ∧
      ∀ height, x.intent ≠ .fetchBlockAtHeight height) ∧
    (m.own.inRange = true → m.own.serial < Word.maxSigned → ∃ m', m.run lies = .ok m') := by
  have hready : m.Ready := (ready_start hlimit me height wallMillis).run hrun
  have hme : m.me = me := (fixed_run hrun).1.trans (fixed_start config me height wallMillis).1
  have hm : m.CalmOutside F := by
    unfold CalmOutside
    rwa [hme]
  have hself : Contained F m m :=
    ⟨rfl, fun _ _ _ => rfl, .inl rfl, hready.intent_ne_of_upToDate (hm.behind_eq hF)⟩
  have htrail : ∀ x ∈ m.trail lies, Contained F m x :=
    trail_invariant_of_mem hself fun input hi x y hmove hx =>
      hx.move hm hn hF (hlies input hi) hmove
  refine ⟨fun x hx => ⟨(htrail x hx).own, (htrail x hx).intent⟩, fun hin hserial => ?_⟩
  exact run_ok_of_inRange fun x hx => (htrail x hx).inRange hin hserial

/-- The fourth of four validators claims to hold the block, then to be far ahead in height and round
and in revolt, and signs at random: the block becomes prepared, and that is all. -/
theorem faulty_peers_contained_far_ahead :
    let peer := NodeStatus.mk 4 1 0 .haveBlock (some .zero) false
    let inputs : List Input := [.built .zero default, .status 1 peer,
      .status 2 { peer with phase := .waitBlock, rid := none }]
    let lies : List Input := [.status 3 { peer with revolting := true },
      .status 3 ⟨4, 2, 9, .prepared, none, true⟩, .commitSignature 3 .zero default,
      .status 3 ⟨70, 3, 5, .prepared, some .zero, true⟩]
    ∃ m m', (start { maxIterations := 3 } (0 : Fin 4) 4 0).run inputs = .ok m ∧
      m.own = ⟨4, 1, 0, .haveBlock, some .zero, false⟩ ∧ m.run lies = .ok m' ∧
      m'.own = ⟨4, 2, 0, .prepared, some .zero, false⟩ ∧
      ∀ x ∈ m.trail lies, (x.own = m.own ∨ x.own = m'.own) ∧
        ∀ height, x.intent ≠ .fetchBlockAtHeight height := by
  intro peer inputs lies
  have hview : ((start { maxIterations := 3 } (0 : Fin 4) 4 0).run inputs).toOption.map
      (fun m => (m.own, (m.run lies).toOption.map own,
        decide (∀ i ∉ ({3} : Finset (Fin 4)), (m.statuses.get i).height = m.own.height ∧
          (m.statuses.get i).round ≤ m.own.round ∧
            (i ≠ 0 → (m.statuses.get i).revolting = false)))) =
        some (⟨4, 1, 0, .haveBlock, some .zero, false⟩,
          some ⟨4, 2, 0, .prepared, some .zero, false⟩, true) := by decide +kernel
  obtain ⟨m, hm, hseen⟩ := Option.map_eq_some_iff.mp hview
  simp only [Prod.mk.injEq, decide_eq_true_eq] at hseen
  obtain ⟨hown, hlast, hcalm⟩ := hseen
  obtain ⟨m', hm', hown'⟩ := Option.map_eq_some_iff.mp hlast
  have hlies : ∀ input ∈ lies, ∃ i ∈ ({3} : Finset (Fin 4)), (∃ s, input = .status i s) ∨
      ∃ rid signature, input = .commitSignature i rid signature := by simp [lies]
  refine ⟨m, m', ok_of_toOption hm, hown, ok_of_toOption hm', hown', fun x hx => ?_⟩
  obtain ⟨hx, hi⟩ := (faulty_peers_contained (by decide) (by decide) (ok_of_toOption hm)
    (by decide) hcalm hlies).1 x hx
  rw [hown] at hx
  rw [hown, hown']
  exact ⟨hx.imp id And.right, hi⟩

end Manager

end Conclave

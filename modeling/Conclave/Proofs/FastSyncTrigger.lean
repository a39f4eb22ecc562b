import Conclave.Proofs.FaultyPeers
import Conclave.Proofs.OwnProgress
import Conclave.Proofs.SignatureEquivocation

/-!
# What switches fast sync on

The validators that a fast sync needs ahead are one more than may be faulty. A validator that counts
so many above its own height cannot count a quorum at it, so its status manager is behind as well,
and the ones that may be faulty do not suffice to switch fast sync on.
-/

namespace Conclave

variable {n : ℕ}

/-- Two disjoint sets, a majority in one of them: the other is not a quorum. -/
lemma card_lt_quorum_of_majority {A B : Finset (Fin n)} (hdisjoint : Disjoint A B)
    (hB : majority n ≤ B.card) (me : Fin n) : A.card < quorum n := by
  have hothers : A ⊆ Bᶜ := fun i hi =>
    Finset.mem_compl.mpr (Finset.disjoint_left.mp hdisjoint hi)
  exact (Finset.card_le_card hothers).trans_lt ((majority_le_card_iff me.pos).mp hB)

/-- All that may be faulty are not a majority. -/
lemma card_lt_majority {B F : Finset (Fin n)} (hF : F.card ≤ (n - 1) / 3) (hB : B ⊆ F) :
    B.card < majority n := by
  have hcard := Finset.card_le_card hB
  unfold majority quorum
  split <;> omega

namespace Manager

variable {m : Manager n} {threshold : ℕ}

/-- The validators recorded at least `threshold` heights above the own one. -/
def farAhead (m : Manager n) (threshold : ℕ) : Finset (Fin n) :=
  Finset.univ.filter fun i => m.own.height + threshold ≤ (m.statuses.get i).height

lemma mem_farAhead {i : Fin n} :
    i ∈ m.farAhead threshold ↔ m.own.height + threshold ≤ (m.statuses.get i).height := by
  simp [farAhead]

/-- A manager that knows of a majority ahead of it is behind. -/
lemma behind_of_majority (ht : 1 ≤ threshold) (hm : majority n ≤ (m.farAhead threshold).card) :
    m.behind = true := by
  refine behind_iff.mpr ⟨card_lt_quorum_of_majority ?_ hm m.me, ?_⟩
  · refine Finset.disjoint_left.mpr fun i hi hfar => ?_
    have hlevel : (m.statuses.get i).height = m.own.height := by simpa using hi
    have habove := mem_farAhead.mp hfar
    omega
  · have hsome : (m.farAhead threshold).Nonempty :=
      Finset.card_pos.mp ((Nat.succ_pos _).trans_le hm)
    obtain ⟨i, hi⟩ := hsome
    have habove := mem_farAhead.mp hi
    exact ⟨i, by omega⟩

/-- A reachable manager that is behind has no block, or one that is prepared. -/
lemma Ready.phase_of_behind (h : m.Ready) (hb : m.behind = true) :
    m.own.phase ≠ .haveBlock ∧
      (m.own.phase = .prepared ∨
        (m.own.phase = .waitBlock ∧ m.intent = .fetchBlockAtHeight m.own.height)) := by
  have hne : m.own.phase ≠ .haveBlock := fun hp => by
    rw [(h.intent_of_having hp).1] at hb
    cases hb
  refine ⟨hne, ?_⟩
  cases hp : m.own.phase with
  | waitBlock => exact .inr ⟨rfl, h.settled.catchingUp (by simp [hp]) hb⟩
  | haveBlock => exact (hne hp).elim
  | prepared => exact .inl rfl

/-- A status of a validator in `F` changes no record of another one, and no own height. -/
lemma near_respond {F : Finset (Fin n)} (ht : 1 ≤ threshold)
    (hnear : ∀ i ∉ F, (m.statuses.get i).height < m.own.height + threshold) {sender : Fin n}
    (hs : sender ∈ F) (s : NodeStatus) :
    (m.respond (.status sender s)).1.own.height = m.own.height ∧
      ∀ i ∉ F, ((m.respond (.status sender s)).1.statuses.get i).height <
        m.own.height + threshold := by
  have hheight : (m.respond (.status sender s)).1.own.height = m.own.height :=
    height_after_respond m _
  refine ⟨hheight, fun i hi => ?_⟩
  by_cases hme : i = m.me
  · have hown : (m.respond (.status sender s)).1.statuses.get i =
        (m.respond (.status sender s)).1.own := by
      rw [own, (fixed_respond m _).1, hme]
    rw [hown, hheight]
    omega
  · have huntold : ∀ s', Input.status sender s ≠ .status i s' := fun s' he => by
      obtain ⟨hval, -⟩ := Input.status.inj he
      exact hi (Fin.ext hval ▸ hs)
    rw [record_of_untold hme huntold]
    exact hnear i hi

end Manager

namespace Validator

variable {v v' : Validator n}

lemma fastSync_checkFastSync (ht : 1 ≤ v.sync.fastSyncThreshold)
    (hword : v.manager.own.height + v.sync.fastSyncThreshold ≤ Word.maxUnsigned) :
    v.checkFastSync.fastSync = true ↔
      majority n ≤ (v.manager.farAhead v.sync.fastSyncThreshold).card := by
  have htarget : Word.saturate (v.manager.own.height + v.sync.fastSyncThreshold) =
      v.manager.own.height + v.sync.fastSyncThreshold := Nat.min_eq_left hword
  unfold checkFastSync
  simp only [htarget, Manager.tally_eq_card, decide_eq_true_eq]
  rw [if_neg (by omega)]
  exact decide_eq_true_iff

lemma manager_checkFastSync (v : Validator n) :
    v.checkFastSync.manager = v.manager ∧ v.checkFastSync.sync = v.sync := by
  unfold checkFastSync
  simp only
  split
  · exact ⟨rfl, rfl⟩
  · split <;> exact ⟨rfl, rfl⟩

/-! ### Statuses of the few -/

/-- Fast sync is off, and no more than the validators in `F` are recorded far ahead. -/
structure Undisturbed (F : Finset (Fin n)) (v : Validator n) : Prop where
  off : v.fastSync = false
  threshold : 1 ≤ v.sync.fastSyncThreshold
  word : v.manager.own.height + v.sync.fastSyncThreshold ≤ Word.maxUnsigned
  near : ∀ i ∉ F, (v.manager.statuses.get i).height <
    v.manager.own.height + v.sync.fastSyncThreshold

lemma checkFastSync_off {F : Finset (Fin n)} (hF : F.card ≤ (n - 1) / 3)
    (ht : 1 ≤ v.sync.fastSyncThreshold)
    (hword : v.manager.own.height + v.sync.fastSyncThreshold ≤ Word.maxUnsigned)
    (hnear : ∀ i ∉ F, (v.manager.statuses.get i).height <
      v.manager.own.height + v.sync.fastSyncThreshold) : v.checkFastSync.fastSync = false := by
  rw [← Bool.not_eq_true, fastSync_checkFastSync ht hword, Nat.not_le]
  refine card_lt_majority hF fun i hi => ?_
  by_contra hout
  exact absurd (Manager.mem_farAhead.mp hi) (Nat.not_le.mpr (hnear i hout))

/-- A status is dropped, or told to the manager and followed by a look at who is far ahead. -/
lemma handleMessage_status {now : Duration} {sender : ℕ} {s : NodeStatus}
    (hv : v.handleMessage now sender (.status s) = .ok v') :
    (v'.manager = v.manager ∧ v'.sync = v.sync ∧ v'.fastSync = v.fastSync) ∨
      ∃ w : Validator n, v' = w.checkFastSync ∧ w.sync = v.sync ∧
        w.manager = ((v.manager.setTime now).respond (.status sender s)).1 := by
  unfold Validator.handleMessage at hv
  simp only at hv
  split at hv
  · obtain ⟨r, htell, he⟩ := Manager.exists_of_bind_eq_ok hv
    obtain ⟨rfl, -⟩ := Executor.tell_eq_ok htell
    cases he
    exact .inr ⟨_, rfl, rfl, rfl⟩
  · cases hv
    exact .inl ⟨rfl, rfl, rfl⟩

lemma Undisturbed.handleMessage {F : Finset (Fin n)} (hF : F.card ≤ (n - 1) / 3)
    (h : v.Undisturbed F) {now : Duration} {sender : Fin n} {s : NodeStatus} (hs : sender ∈ F)
    (hv : v.handleMessage now sender (.status s) = .ok v') : v'.Undisturbed F := by
  obtain ⟨hoff, ht, hword, hnear⟩ := h
  rcases handleMessage_status hv with ⟨hm, hsync, hfast⟩ | ⟨w, rfl, hsync, hm⟩
  · rw [← hsync, ← hm] at hword hnear
    exact ⟨hfast.trans hoff, by rwa [hsync], hword, hnear⟩
  · obtain ⟨hheight, hstill⟩ :=
      Manager.near_respond (m := v.manager.setTime now) ht hnear hs s
    have hheight' : w.manager.own.height = v.manager.own.height := by rw [hm, hheight]; rfl
    rw [← hsync] at ht
    have hword' : w.manager.own.height + w.sync.fastSyncThreshold ≤ Word.maxUnsigned := by
      rwa [hheight', hsync]
    have hnear' : ∀ i ∉ F, (w.manager.statuses.get i).height <
        w.manager.own.height + w.sync.fastSyncThreshold := by
      rw [hheight', hsync, hm]
      exact hstill
    obtain ⟨hmanager, hkept⟩ := manager_checkFastSync w
    refine ⟨checkFastSync_off hF ht hword' hnear', ?_, ?_, ?_⟩ <;> rw [hkept]
    · exact ht
    · rwa [hmanager]
    · rwa [hmanager]

/-- One status after the other. -/
def hearStatuses (v : Validator n) (told : List (Duration × Fin n × NodeStatus)) :
    Except Fault (Validator n) :=
  told.foldlM (fun v (now, sender, s) => v.handleMessage now sender (.status s)) v

lemma Undisturbed.hearStatuses {F : Finset (Fin n)} (hF : F.card ≤ (n - 1) / 3)
    (h : v.Undisturbed F) {told : List (Duration × Fin n × NodeStatus)}
    (htold : ∀ x ∈ told, x.2.1 ∈ F) (hv : v.hearStatuses told = .ok v') : v'.Undisturbed F := by
  induction told generalizing v with
  | nil =>
    cases hv
    exact h
  | cons x told ih =>
    obtain ⟨w, hw, hrest⟩ := Manager.exists_of_bind_eq_ok hv
    exact ih (h.handleMessage hF (htold x List.mem_cons_self) hw)
      (fun y hy => htold y (List.mem_cons_of_mem _ hy)) hrest

/-- Whatever a status manager that may take three steps has come to: a validator that the records
of its manager switch to fast sync is behind, in that fewer than a quorum are recorded at its
height. It has no block in hand but a prepared one, and without that it asks for the block at its
height. As long as all but a few that may be faulty are recorded less than the threshold ahead,
whatever the few are recorded at, and whatever statuses they go on to send, fast sync stays off. -/
theorem fast_sync_behind {config : Config} {me : Fin n} {height wallMillis : ℕ}
    {inputs : List Manager.Input} (hlimit : 3 ≤ config.maxIterations)
    (hrun : (Manager.start config me height wallMillis).run inputs = .ok v.manager)
    (hthreshold : 1 ≤ v.sync.fastSyncThreshold)
    (hword : v.manager.own.height + v.sync.fastSyncThreshold ≤ Word.maxUnsigned) :
    let own := v.manager.own
    let record := fun i => v.manager.statuses.get i
    (v.checkFastSync.fastSync = true →
      (Finset.univ.filter fun i => (record i).height = own.height).card < quorum n ∧
      own.phase ≠ .haveBlock ∧
      (own.phase = .prepared ∨
        (own.phase = .waitBlock ∧ v.manager.intent = .fetchBlockAtHeight own.height))) ∧
    ∀ F : Finset (Fin n), F.card ≤ (n - 1) / 3 →
      (∀ i ∉ F, (record i).height < own.height + v.sync.fastSyncThreshold) →
        v.checkFastSync.fastSync = false ∧
        (v.fastSync = false → ∀ (told : List (Duration × Fin n × NodeStatus)) (v' : Validator n),
          (∀ x ∈ told, x.2.1 ∈ F) → v.hearStatuses told = .ok v' → v'.fastSync = false) := by
  intro own record
  refine ⟨fun hon => ?switched, fun F hF hnear => ⟨?recorded, fun hoff told v' htold hv => ?told⟩⟩
  case switched =>
    have hready : v.manager.Ready := (Manager.ready_start hlimit me height wallMillis).run hrun
    have hmajority := (fastSync_checkFastSync hthreshold hword).mp hon
    have hbehind := Manager.behind_of_majority hthreshold hmajority
    exact ⟨(Manager.behind_iff.mp hbehind).1, hready.phase_of_behind hbehind⟩
  case recorded => exact checkFastSync_off hF hthreshold hword hnear
  case told =>
    have hquiet : v.Undisturbed F := ⟨hoff, hthreshold, hword, hnear⟩
    exact (hquiet.hearStatuses hF htold hv).off

/-- The first of four validators with the status manager `m`. -/
def exampleWith (m : Manager 4) : Validator 4 := { Runner.exampleValidator with manager := m }

/-- One of four validators is five heights ahead, and then much further: fast sync stays off. With a
second one it comes on. -/
theorem fast_sync_behind_two_ahead :
    let ahead := NodeStatus.fresh 5 1
    let further : List (Duration × Fin 4 × NodeStatus) := [(.zero, 3, .fresh 70 2)]
    ∃ m₁ m₂ v', (Manager.start {} (0 : Fin 4) 0 0).run [.status 3 ahead] = .ok m₁ ∧
      (Manager.start {} (0 : Fin 4) 0 0).run [.status 3 ahead, .status 2 ahead] = .ok m₂ ∧
      (exampleWith m₁).hearStatuses further = .ok v' ∧
      (v'.manager.statuses.get 3).height = 70 ∧ v'.fastSync = false ∧
      (exampleWith m₂).checkFastSync.fastSync = true ∧ m₂.intent = .fetchBlockAtHeight 0 := by
  intro ahead further
  have hfirst : ((Manager.start {} (0 : Fin 4) 0 0).run [.status 3 ahead]).toOption.map
      (fun m => (m.own, decide (∀ i ∉ ({3} : Finset (Fin 4)), (m.statuses.get i).height < 0 + 3),
        ((exampleWith m).hearStatuses further).toOption.map fun v => (v.manager.statuses.get 3))) =
        some (.fresh 0 0, true, some (.fresh 70 2)) := by decide +kernel
  have hsecond : ((Manager.start {} (0 : Fin 4) 0 0).run
      [.status 3 ahead, .status 2 ahead]).toOption.map
      (fun m => (m.own, (exampleWith m).checkFastSync.fastSync)) =
        some (.fresh 0 0, true) := by decide +kernel
  obtain ⟨m₁, hm₁, hseen₁⟩ := Option.map_eq_some_iff.mp hfirst
  obtain ⟨m₂, hm₂, hseen₂⟩ := Option.map_eq_some_iff.mp hsecond
  simp only [Prod.mk.injEq, decide_eq_true_eq] at hseen₁ hseen₂
  obtain ⟨hown₁, hnear, hlast⟩ := hseen₁
  obtain ⟨hown₂, hon⟩ := hseen₂
  obtain ⟨v', hv', hfar⟩ := Option.map_eq_some_iff.mp hlast
  have hrun₁ := Manager.ok_of_toOption hm₁
  have hrun₂ := Manager.ok_of_toOption hm₂
  have htold := Manager.ok_of_toOption hv'
  have hword₁ : m₁.own.height + 3 ≤ Word.maxUnsigned := by rw [hown₁]; decide
  have hword₂ : m₂.own.height + 3 ≤ Word.maxUnsigned := by rw [hown₂]; decide
  have hnear₁ : ∀ i ∉ ({3} : Finset (Fin 4)), (m₁.statuses.get i).height < m₁.own.height + 3 := by
    rw [hown₁]
    exact hnear
  have hthreshold : 1 ≤ 3 := by decide
  have hoff := (fast_sync_behind (v := exampleWith m₁) (by decide) hrun₁ hthreshold hword₁).2 {3}
    (by decide) hnear₁
  have hbehind := (fast_sync_behind (v := exampleWith m₂) (by decide) hrun₂ hthreshold hword₂).1 hon
  refine ⟨m₁, m₂, v', hrun₁, hrun₂, htold, congrArg NodeStatus.height hfar,
    hoff.2 rfl further v' (by decide) htold, hon, ?_⟩
  rcases hbehind.2.2 with hp | ⟨-, hi⟩
  · simp [exampleWith, hown₂, NodeStatus.fresh] at hp
  · have hheight : m₂.own.height = 0 := by rw [hown₂]; rfl
    rw [← hheight]
    exact hi

end Validator

end Conclave

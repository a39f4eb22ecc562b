import Conclave.Proofs.FastForward

/-!
# View changes

The own round goes up by one step of a recompute only: a quorum, the own validator among it, is
against the primary of the round. That step ends the own revolt, so that every round is paid for by
a revolt of its own, and no input gains more than one within a height.
-/

namespace Conclave.Manager

variable {n : ℕ} {m x y z : Manager n} {input : Input}

/-! ### The next round -/

/-- The validators at the own height that revolt in the own round or have left it behind. -/
def opponents (m : Manager n) : Finset (Fin n) :=
  Finset.univ.filter fun i =>
    (m.statuses.get i).height = m.own.height ∧
      (((m.statuses.get i).round = m.own.round ∧ (m.statuses.get i).revolting = true) ∨
        m.own.round < (m.statuses.get i).round)

lemma revoltVotes_eq_card (m : Manager n) : m.revoltVotes = m.opponents.card := by
  unfold revoltVotes opponents
  rw [tally_eq_card]
  congr 1
  apply Finset.filter_congr
  intro i _
  simp

/-- One who revolts is against the primary. -/
lemma me_mem_opponents (h : m.own.revolting = true) : m.me ∈ m.opponents := by
  apply Finset.mem_filter.mpr
  exact ⟨Finset.mem_univ _, rfl, .inl ⟨rfl, h⟩⟩

/-- From `x` to `y` the own validator goes on to the next round with a quorum. A block that is not
prepared is dropped with all signatures; one that is prepared is kept, and what was to be done with
it. -/
structure ChangesView (x y : Manager n) : Prop where
  height : y.own.height = x.own.height
  round : y.own.round = x.own.round + 1
  votes : quorum n ≤ x.opponents.card
  ownVote : x.me ∈ x.opponents
  revolted : x.own.revolting = true
  calm : y.own.revolting = false
  drops : x.own.phase = .haveBlock →
    y.own.phase = .waitBlock ∧ y.own.rid = none ∧ y.signatures = Vector.replicate n none
  keeps : x.own.phase = .prepared →
    y.own.phase = .prepared ∧ y.own.rid = x.own.rid ∧ y.signatures = x.signatures ∧
      y.intent = x.intent

lemma changesView_advanceRound (revolted : m.own.revolting = true)
    (votes : quorum n ≤ m.revoltVotes) : ChangesView m m.advanceRound := by
  have hview := becomes_advanceRound m
  have hown := hview.own_eq
  refine {
    height := by rw [hown]; exact dropped_height _
    round := by rw [hown]; exact congrArg (· + 1) (dropped_round _)
    votes := by rwa [← revoltVotes_eq_card]
    ownVote := me_mem_opponents revolted
    revolted
    calm := by rw [hown]
    drops := fun hp => ?_
    keeps := fun hp => ?_ }
  · rw [hown, hview.signatures]
    simp [dropped, keptSignatures, hp]
  · have hne : m.own.phase ≠ .haveBlock := by simp [hp]
    rw [hown, hview.signatures, hview.intent, dropped_of_ne hne, keptSignatures_of_ne hne]
    exact ⟨hp, rfl, rfl, rfl⟩

/-! ### Moves -/

/-- What a move does to the own round. -/
inductive Shift (input : Input) (x y : Manager n) : Prop
  | stay (height : y.own.height = x.own.height) (round : y.own.round = x.own.round)
      (revolting : y.own.revolting = x.own.revolting) (views : y.viewChanges = x.viewChanges)
  | rise (changes : ChangesView x y) (views : y.viewChanges = x.viewChanges + 1)
  | climb (height : y.own.height = x.own.height + 1) (round : y.own.round = 0)
      (revolting : y.own.revolting = false) (views : y.viewChanges = x.viewChanges)
  | rebel (told : input = .revolt) (height : y.own.height = x.own.height)
      (round : y.own.round = x.own.round) (revolting : y.own.revolting = true)
      (views : y.viewChanges = x.viewChanges)

lemma SameBooks.dropUnprepared (h : SameBooks m x) : SameBooks m x.dropUnprepared := by
  unfold Manager.dropUnprepared
  split
  · exact ((h.setPhase .waitBlock).modifyOwn _).clearSignatures
  · exact h

@[simp] lemma dropped_revolting (s : NodeStatus) : (dropped s).revolting = s.revolting := by
  unfold dropped
  split <;> rfl

/-- A change of intent. -/
lemma shift_setIntent (x : Manager n) (intent : Intent) : Shift input x (x.setIntent intent) := by
  have hbooks := (SameBooks.refl x).setIntent intent
  apply Shift.stay _ _ _ hbooks.viewChanges
  all_goals rw [own_setIntent]

lemma shift_of_step (h : x.step = some y) : Shift input x y := by
  cases makes_of_step h with
  | setIntent intent => exact shift_setIntent x intent
  | catchUp =>
    have hdrop := (becomes_dropUnprepared x).setIntent (.fetchBlockAtHeight x.own.height)
    have hbooks := (SameBooks.refl x).dropUnprepared.setIntent (.fetchBlockAtHeight x.own.height)
    apply Shift.stay _ _ _ hbooks.viewChanges
    all_goals simp [hdrop.own_eq]
  | advanceRound revolting votes =>
    have hbooks := (SameBooks.refl x).dropUnprepared
    exact .rise (changesView_advanceRound revolting votes) (congrArg (· + 1) hbooks.viewChanges)
  | prepare =>
    have hown := (becomes_prepare x).own_eq
    have hbooks : SameBooks x x.prepare := ((SameBooks.refl x).setPhase .prepared).modifyOwn _
    apply Shift.stay _ _ _ hbooks.viewChanges
    all_goals rw [hown]

lemma viewChanges_hear (m : Manager n) (i : Fin n) (s : NodeStatus) :
    (m.hear i s).viewChanges = m.viewChanges := by
  unfold hear noteRevolt
  split <;> rfl

lemma viewChanges_take (m : Manager n) (rid : Rid) (signature : Signature) :
    (m.take rid signature).viewChanges = m.viewChanges := by
  have hbooks := ((SameBooks.refl m).clearSignatures.modifyOwn fun s =>
    { s with rid := some rid, serial := s.serial + 1 }).setPhase .haveBlock
  exact ((SameBooks.refl _).setIntent .doNothing).viewChanges.trans hbooks.viewChanges

theorem Move.shift (h : Move input x y) : Shift input x y := by
  cases h with
  | rest => exact .stay rfl rfl rfl rfl
  | step h => exact shift_of_step h
  | cutOff => exact .stay rfl rfl rfl rfl
  | reject => exact .stay rfl rfl rfl rfl
  | setTime => exact .stay rfl rfl rfl rfl
  | hear i s told peer fresher =>
    apply Shift.stay _ _ _ (viewChanges_hear x i s)
    all_goals rw [hear_own peer]
  | climb =>
    apply Shift.climb _ _ _ (sameBooks_climb x).viewChanges
    all_goals rw [(becomes_climb x).own_eq]
  | take rid signature =>
    apply Shift.stay _ _ _ (viewChanges_take x rid signature)
    all_goals rw [(becomes_take x rid signature).own_eq]
  | collect i rid signature =>
    have hown := (becomes_collect x i signature).own_eq
    exact .stay (by rw [hown]) (by rw [hown]) (by rw [hown]) rfl
  | rebel told =>
    have hown := (becomes_rebel x).own_eq
    exact .rebel told (by rw [hown]) (by rw [hown]) (by rw [hown]) rfl

/-! ### Rounds along a chain of moments -/

/-- From `x` to `y` the own round goes up within the own height. -/
def RoundUp (x y : Manager n) : Prop :=
  y.own.height = x.own.height ∧ x.own.round < y.own.round

instance : Decidable (RoundUp x y) :=
  inferInstanceAs (Decidable (_ ∧ _))

/-- How often the own round goes up along `l`. -/
def roundsUp (l : List (Manager n)) : ℕ := (l.zip l.tail).countP fun p => RoundUp p.1 p.2

lemma roundsUp_cons_cons (x y : Manager n) (l : List (Manager n)) :
    roundsUp (x :: y :: l) = roundsUp (y :: l) + if RoundUp x y then 1 else 0 := by
  simp [roundsUp, List.countP_cons]

lemma Shift.changesView (h : Shift input x y) (hup : RoundUp x y) : ChangesView x y := by
  obtain ⟨hheight, hround⟩ := hup
  cases h with
  | rise changes => exact changes
  | stay _ round => omega
  | climb _ round => omega
  | rebel _ _ round => omega

/-- The counter of view changes goes along with the own round. -/
lemma Shift.viewChanges_eq (h : Shift input x y) :
    y.viewChanges = x.viewChanges + if RoundUp x y then 1 else 0 := by
  cases h with
  | stay height round revolting views =>
    have hno : ¬RoundUp x y := fun hup => by have := hup.2; omega
    rw [if_neg hno, views, Nat.add_zero]
  | rise changes views =>
    have hup : RoundUp x y := ⟨changes.height, by have := changes.round; omega⟩
    rw [if_pos hup, views]
  | climb height round revolting views =>
    have hno : ¬RoundUp x y := fun hup => by have := hup.1; omega
    rw [if_neg hno, views, Nat.add_zero]
  | rebel told height round revolting views =>
    have hno : ¬RoundUp x y := fun hup => by have := hup.2; omega
    rw [if_neg hno, views, Nat.add_zero]

lemma viewChanges_of_isChain {l : List (Manager n)}
    (h : (m :: l).IsChain fun x y => ∃ input, Move input x y) (hx : (m :: l).getLast? = some x) :
    x.viewChanges = m.viewChanges + roundsUp (m :: l) := by
  induction l generalizing m with
  | nil =>
    cases hx
    rfl
  | cons y l ih =>
    obtain ⟨⟨input, hmove⟩, hchain⟩ := List.isChain_cons_cons.mp h
    have hrest := ih hchain (by simpa using hx)
    have hfirst := hmove.shift.viewChanges_eq
    rw [roundsUp_cons_cons]
    omega

/-! ### What a round costs -/

def Input.isRevolt : Input → Bool
  | .revolt => true
  | _ => false

/-- What holds at first, also once the own validator revolts if the input says so, and is preserved
by the moves of all other inputs, holds at every moment. -/
theorem moments_invariant_of_calm {P : Manager n → Prop} (hP : P m)
    (hrebel : input.isRevolt = true → P m.rebel)
    (hshift : ∀ other x y, other.isRevolt = false → Shift other x y → P x → P y) :
    ∀ x ∈ m.moments input, P x := by
  intro x hx
  cases hcalm : input.isRevolt with
  | false =>
    exact moments_invariant hP (fun y z hmove => hshift input y z hcalm hmove.shift) x hx
  | true =>
    obtain rfl : input = .revolt := by
      cases input <;> first | rfl | cases hcalm
    -- Once it revolts, the manager does what a bare recompute does.
    have hmoments : m.moments .revolt = m :: m.rebel.recomputing := rfl
    rw [hmoments] at hx
    rcases List.mem_cons.mp hx with rfl | hx
    · exact hP
    · have hx' : x ∈ m.rebel.moments .recompute := List.mem_cons_of_mem _ hx
      exact moments_invariant (hrebel rfl)
        (fun y z hmove => hshift .recompute y z rfl hmove.shift) x hx'

/-- The rounds so far and the one that the own revolt may still bring. -/
def charge (m : Manager n) : ℕ := m.viewChanges + m.own.revolting.toNat

lemma Shift.charge_le (h : Shift input x y) (hcalm : input.isRevolt = false) :
    y.charge ≤ x.charge := by
  unfold charge
  cases h with
  | stay height round revolting views => rw [views, revolting]
  | rise changes views => simp [views, changes.calm, changes.revolted]
  | climb height round revolting views => simp [views, revolting]
  | rebel told => cases told; cases hcalm

lemma charge_of_mem_moments :
    ∀ x ∈ m.moments input, x.charge ≤ m.charge + if input.isRevolt then 1 else 0 := by
  apply moments_invariant_of_calm
  · exact Nat.le_add_right _ _
  · intro htold
    have hviews : m.rebel.viewChanges = m.viewChanges := rfl
    have hone := Bool.toNat_le m.rebel.own.revolting
    simp only [charge, hviews, htold, if_true]
    omega
  · intro other y z hcalm hshift hy
    exact (hshift.charge_le hcalm).trans hy

/-- Every revolt is good for one round. -/
lemma charge_of_mem_trail {inputs : List Input} :
    ∀ x ∈ m.trail inputs, x.charge ≤ m.charge + inputs.countP Input.isRevolt := by
  induction inputs generalizing m with
  | nil =>
    intro x hx
    obtain rfl := List.mem_singleton.mp hx
    exact Nat.le_add_right _ _
  | cons input inputs ih =>
    intro x hx
    rw [List.countP_cons]
    by_cases hin : (m.respond input).1.own.inRange = true
    · rw [trail_cons hin] at hx
      rcases List.mem_append.mp hx with hx | hx
      · have := charge_of_mem_moments x hx
        omega
      · have hlast := charge_of_mem_moments _ (List.mem_of_getLast? (isPath_moments m input).last)
        have := ih x hx
        omega
    · have hx' : x ∈ m.moments input := by simpa [trail, handle, hin] using hx
      have := charge_of_mem_moments x hx'
      omega

lemma charge_start (config : Config) (me : Fin n) (height wallMillis : ℕ) :
    (start config me height wallMillis).viewChanges = 0 ∧
      (start config me height wallMillis).charge = 0 := by
  refine start_invariant (P := fun x => x.viewChanges = 0 ∧ x.charge = 0) (fun serial => ?_)
    (fun x y hmove hx => ?_) (fun x hx => hx) wallMillis
  · simp [charge, own, blank, NodeStatus.fresh]
  · have hcharge := hmove.shift.charge_le rfl
    have hviews : y.viewChanges ≤ y.charge := Nat.le_add_right _ _
    omega

/-! ### One input -/

/-- `y` is at most one round above `m`, and in that round without a revolt. Above the height of `m`
it is in the first round. -/
def Near (m y : Manager n) : Prop :=
  (y.own.height = m.own.height ∧ m.own.round ≤ y.own.round ∧
      y.own.round + y.own.revolting.toNat ≤ m.own.round + 1) ∨
    (m.own.height < y.own.height ∧ y.own.round = 0 ∧ y.own.revolting = false)

lemma Near.shift (h : Near m x) (hshift : Shift input x y) (hcalm : input.isRevolt = false) :
    Near m y := by
  unfold Near at h ⊢
  cases hshift with
  | stay height round revolting =>
    rw [height, round, revolting]
    exact h
  | rise changes =>
    have hround := changes.round
    rw [changes.revolted] at h
    rw [changes.height, changes.calm]
    rcases h with ⟨hheight, hle, hlt⟩ | ⟨-, -, hfalse⟩
    · simp only [Bool.toNat_true] at hlt
      exact .inl ⟨hheight, by omega, by simp only [Bool.toNat_false]; omega⟩
    · cases hfalse
  | climb height round revolting =>
    exact .inr ⟨by omega, round, revolting⟩
  | rebel told =>
    cases told
    cases hcalm

lemma near_of_mem_moments : ∀ x ∈ m.moments input, Near m x := by
  apply moments_invariant_of_calm
  · have hone := Bool.toNat_le m.own.revolting
    exact .inl ⟨rfl, le_refl _, by omega⟩
  · intro _
    rw [Near, (becomes_rebel m).own_eq]
    exact .inl ⟨rfl, le_refl _, by simp⟩
  · intro other y z hcalm hshift hy
    exact hy.shift hshift hcalm

lemma round_le_of_mem_moments (hy : y ∈ m.moments input) (hz : z ∈ m.moments input)
    (h : z.own.height = y.own.height) : z.own.round ≤ y.own.round + 1 := by
  rcases near_of_mem_moments y hy with ⟨hheight, hle, hlt⟩ | ⟨hheight, hround, -⟩
  · rcases near_of_mem_moments z hz with ⟨-, -, hz⟩ | ⟨hz, -, -⟩
    · omega
    · omega
  · rcases near_of_mem_moments z hz with ⟨hz, -, -⟩ | ⟨-, hz, -⟩
    · omega
    · omega

/-! ### Runs -/

/-- Whatever a manager is told from its start on: an input takes it up by one round at most within a
height. At every moment it has counted how often its round went up, which is no more often than it
was told to revolt. Its round goes up only by a change of view, with a quorum that is against the
primary and that it is part of. -/
theorem view_changes_are_paid_for (config : Config) (me : Fin n) (height wallMillis : ℕ)
    (inputs : List Input) :
    let m := start config me height wallMillis
    (∀ x ∈ m.trail inputs, ∀ input, ∀ y ∈ x.moments input, ∀ z ∈ x.moments input,
      z.own.height = y.own.height → z.own.round ≤ y.own.round + 1) ∧
    (∀ told, told <+: inputs → ∀ before x, before ++ [x] <+: m.trail told →
      x.viewChanges = roundsUp (before ++ [x]) ∧
        roundsUp (before ++ [x]) ≤ told.countP Input.isRevolt) ∧
    (m.trail inputs).IsChain fun x y => RoundUp x y → ChangesView x y := by
  intro m
  obtain ⟨hviews, hcharge⟩ := charge_start config me height wallMillis
  refine ⟨fun x _ input y hy z hz h => round_le_of_mem_moments hy hz h, ?_, ?_⟩
  · rintro told _ before x ⟨later, hlater⟩
    have hx : x ∈ m.trail told := by
      rw [← hlater]
      simp
    have hchain : (before ++ [x]).IsChain fun x y => ∃ input, Move input x y := by
      have hwhole := isChain_trail m told
      rw [← hlater] at hwhole
      exact hwhole.left_of_append
    have hcounted : x.viewChanges = roundsUp (before ++ [x]) := by
      have hhead := head?_trail m told
      rw [← hlater] at hhead
      cases before with
      | nil =>
        cases hhead
        exact hviews
      | cons y before =>
        cases hhead
        have hlast : (m :: (before ++ [x])).getLast? = some x := by
          rw [← List.cons_append, List.getLast?_append]
          rfl
        have hcount := viewChanges_of_isChain hchain hlast
        rwa [hviews, Nat.zero_add] at hcount
    have hpaid := charge_of_mem_trail x hx
    rw [hcharge, Nat.zero_add] at hpaid
    have hle : x.viewChanges ≤ x.charge := Nat.le_add_right _ _
    exact ⟨hcounted, by omega⟩
  · exact (isChain_trail m inputs).imp fun x y ⟨input, hmove⟩ => hmove.shift.changesView

/-- Peers that are rounds ahead keep counting, but each round takes a revolt of its own. -/
theorem view_changes_are_paid_for_twice :
    let ahead := NodeStatus.mk 0 1 7 .waitBlock none false
    let inputs : List Input :=
      [.status 1 ahead, .status 2 ahead, .revolt, .recompute, .revolt, .recompute]
    let m := start {} (0 : Fin 4) 0 0
    inputs.countP Input.isRevolt = 2 ∧ roundsUp (m.trail inputs) = 2 ∧
      ∃ x ∈ (m.trail inputs).getLast?, x.own.round = 2 ∧ x.viewChanges = 2 := by
  intro ahead inputs m
  have hrounds : roundsUp (m.trail inputs) = 2 := by decide +kernel
  have hlast : ∃ x ∈ (m.trail inputs).getLast?, x.own.round = 2 := by decide +kernel
  obtain ⟨x, hx, hround⟩ := hlast
  refine ⟨rfl, hrounds, x, hx, hround, ?_⟩
  have hwhole : (m.trail inputs).dropLast ++ [x] = m.trail inputs :=
    List.dropLast_append_getLast? x hx
  obtain ⟨hcounted, -⟩ := (view_changes_are_paid_for {} (0 : Fin 4) 0 0 inputs).2.1 inputs
    List.prefix_rfl (m.trail inputs).dropLast x (hwhole.symm ▸ List.prefix_rfl)
  rw [hcounted, hwhole, hrounds]

end Conclave.Manager

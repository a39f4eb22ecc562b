import Conclave.Proofs.Acceptance
import Conclave.Proofs.IntentOfRecords

/-!
# Catching up by several heights at once

A fast forward climbs from height to height and recomputes at each of them. What it goes for on the
way leaves events and nothing else: the manager at the top is the one that a single leap to that
height would give, as a manager that waits without a revolt asks for what its records say.
-/

namespace Conclave.Manager

variable {n : ℕ} {m m' x y : Manager n}

/-! ### A manager that waits for its block -/

/-- What a manager goes for that waits for its block and does not revolt. -/
def idleIntent (m : Manager n) : Intent :=
  if m.behind then .fetchBlockAtHeight m.own.height else m.waitingIntent

lemma Alike.idleIntent (h : Alike x y) : y.idleIntent = x.idleIntent := by
  unfold Manager.idleIntent
  rw [h.behind, h.own, h.waitingIntent]

lemma alike_setIntent (m : Manager n) (intent : Intent) : Alike m (m.setIntent intent) :=
  (m.becomes_self.setIntent intent).alike

lemma step_of_waits (hp : m.own.phase = .waitBlock) (hr : m.own.revolting = false) :
    m.step = m.follow m.idleIntent := by
  cases hb : m.behind with
  | true =>
    simp [step, idleIntent, follow, dropUnprepared, Intent.isFetchingHeight, hp, hb]
  | false =>
    simp [step, idleIntent, hp, hr, hb]

/-- Its recompute is a change of intent. -/
lemma recompute_of_waits (hl : 3 ≤ m.config.maxIterations) (hp : m.own.phase = .waitBlock)
    (hr : m.own.revolting = false) : m.recompute = m.setIntent m.idleIntent := by
  have halike := alike_setIntent m m.idleIntent
  have hset : (m.setIntent m.idleIntent).Settled := by
    rw [← step_eq_none_iff, step_of_waits (by rw [halike.own, hp]) (by rw [halike.own, hr]),
      follow_eq_none, halike.idleIntent, intent_setIntent]
  obtain ⟨k, hk⟩ := Nat.exists_eq_add_of_le' hl
  rw [recompute, hk, settle_succ, step_of_waits hp hr, follow]
  split
  · rename_i hi
    rw [setIntent, if_pos hi]
    rfl
  · exact hset.settle_eq _

/-! ### The books -/

/-- `m'` has heard, counted and timed what `m` has. -/
structure SameBooks (m m' : Manager n) : Prop where
  heardAt : m'.heardAt = m.heardAt
  revoltSeen : m'.revoltSeen = m.revoltSeen
  revoltsAgainst : m'.revoltsAgainst = m.revoltsAgainst
  viewChanges : m'.viewChanges = m.viewChanges
  limitHits : m'.limitHits = m.limitHits
  now : m'.now = m.now

namespace SameBooks

lemma refl (m : Manager n) : SameBooks m m := ⟨rfl, rfl, rfl, rfl, rfl, rfl⟩

lemma trans (h : SameBooks m x) (h' : SameBooks x y) : SameBooks m y where
  heardAt := h'.heardAt.trans h.heardAt
  revoltSeen := h'.revoltSeen.trans h.revoltSeen
  revoltsAgainst := h'.revoltsAgainst.trans h.revoltsAgainst
  viewChanges := h'.viewChanges.trans h.viewChanges
  limitHits := h'.limitHits.trans h.limitHits
  now := h'.now.trans h.now

lemma setIntent (h : SameBooks m x) (intent : Intent) : SameBooks m (x.setIntent intent) := by
  unfold Manager.setIntent
  split
  · exact h
  · exact ⟨h.heardAt, h.revoltSeen, h.revoltsAgainst, h.viewChanges, h.limitHits, h.now⟩

lemma setPhase (h : SameBooks m x) (phase : Phase) : SameBooks m (x.setPhase phase) := by
  unfold Manager.setPhase
  split
  · exact h
  · exact ⟨h.heardAt, h.revoltSeen, h.revoltsAgainst, h.viewChanges, h.limitHits, h.now⟩

lemma modifyOwn (h : SameBooks m x) (f : NodeStatus → NodeStatus) :
    SameBooks m (x.modifyOwn f) :=
  ⟨h.heardAt, h.revoltSeen, h.revoltsAgainst, h.viewChanges, h.limitHits, h.now⟩

lemma clearSignatures (h : SameBooks m x) : SameBooks m x.clearSignatures :=
  ⟨h.heardAt, h.revoltSeen, h.revoltsAgainst, h.viewChanges, h.limitHits, h.now⟩

lemma record (h : SameBooks m x) (e : Event) : SameBooks m (x.record e) :=
  ⟨h.heardAt, h.revoltSeen, h.revoltsAgainst, h.viewChanges, h.limitHits, h.now⟩

end SameBooks

lemma sameBooks_climb (m : Manager n) : SameBooks m m.climb :=
  ((((SameBooks.refl m).modifyOwn _).setPhase _).clearSignatures.setIntent _).record _

/-- Two managers that are alike and agree in the rest differ in their journals at most. -/
lemma Alike.eq_of_sameBooks (h : Alike x y) (hbooks : SameBooks x y)
    (hconfig : y.config = x.config) (hintent : y.intent = x.intent) :
    y = { x with journal := y.journal } := by
  cases x
  cases y
  obtain ⟨rfl, rfl, rfl⟩ := h
  obtain ⟨rfl, rfl, rfl, rfl, rfl, rfl⟩ := hbooks
  cases hconfig
  cases hintent
  rfl

/-! ### One height and several -/

lemma advanceHeight_eq (hl : 3 ≤ m.config.maxIterations) :
    m.advanceHeight = m.climb.setIntent m.climb.idleIntent := by
  have hclimb := becomes_climb m
  have hl' : 3 ≤ m.climb.config.maxIterations := by rwa [hclimb.config]
  have hp : m.climb.own.phase = .waitBlock := by rw [hclimb.own_eq]
  have hr : m.climb.own.revolting = false := by rw [hclimb.own_eq]
  exact recompute_of_waits hl' hp hr

/-- `m'` is `m` on its arrival at `height`, `gained` heights up. -/
structure Arrives (m : Manager n) (height gained : ℕ) (m' : Manager n) : Prop where
  becomes : m.Becomes m' (.fresh height (m.own.serial + gained)) (Vector.replicate n none)
    m'.idleIntent
  books : SameBooks m m'

lemma arrives_setIntent {height gained : ℕ} {intent : Intent}
    (h : m.Becomes x (.fresh height (m.own.serial + gained)) (Vector.replicate n none) intent)
    (hbooks : SameBooks m x) : m.Arrives height gained (x.setIntent x.idleIntent) where
  becomes := by
    rw [(alike_setIntent x _).idleIntent]
    exact h.setIntent _
  books := hbooks.setIntent _

lemma arrives_advanceHeight (hl : 3 ≤ m.config.maxIterations) :
    m.Arrives (m.own.height + 1) 1 m.advanceHeight := by
  rw [advanceHeight_eq hl]
  exact arrives_setIntent (becomes_climb m) (sameBooks_climb m)

/-- The next height up: nothing of the last arrival shows. -/
lemma Arrives.advanceHeight {height gained : ℕ} (hl : 3 ≤ m.config.maxIterations)
    (h : m.Arrives height gained x) : m.Arrives (height + 1) (gained + 1) x.advanceHeight := by
  have hown := h.becomes.own_eq
  have hl' : 3 ≤ x.config.maxIterations := by rwa [h.becomes.config]
  have hnext := arrives_advanceHeight hl'
  refine ⟨?_, h.books.trans hnext.books⟩
  have hboth := h.becomes.trans hnext.becomes
  rw [hown] at hboth
  simp only [NodeStatus.fresh, Int.add_assoc] at hboth ⊢
  exact hboth

lemma advance_succ (heights : ℕ) (m : Manager n) :
    advance (heights + 1) m = (advance heights m).advanceHeight := by
  induction heights generalizing m with
  | zero => rfl
  | succ heights ih => exact ih m.advanceHeight

lemma arrives_advance (hl : 3 ≤ m.config.maxIterations) (heights : ℕ) :
    m.Arrives (m.own.height + (heights + 1)) (heights + 1) (advance (heights + 1) m) := by
  induction heights with
  | zero => exact arrives_advanceHeight hl
  | succ heights ih =>
    rw [advance_succ]
    exact ih.advanceHeight hl

/-- Leaves all heights below `height` behind at once. -/
def leap (m : Manager n) (height : ℕ) : Manager n :=
  ((m.modifyOwn fun s =>
    .fresh height (s.serial + (height - s.height : ℕ))).clearSignatures.setIntent .doNothing).recompute

lemma arrives_leap (hl : 3 ≤ m.config.maxIterations) (height : ℕ) :
    m.Arrives height (height - m.own.height) (m.leap height) := by
  let f : NodeStatus → NodeStatus := fun s => .fresh height (s.serial + (height - s.height : ℕ))
  let jumped := (m.modifyOwn f).clearSignatures.setIntent .doNothing
  have hjumped : m.Becomes jumped (f m.own) (Vector.replicate n none) .doNothing :=
    (m.becomes_self.modifyOwn f).clearSignatures.setIntent _
  have hbooks : SameBooks m jumped :=
    ((SameBooks.refl m).modifyOwn f).clearSignatures.setIntent _
  have hl' : 3 ≤ jumped.config.maxIterations := by rwa [hjumped.config]
  have hrests : m.leap height = jumped.setIntent jumped.idleIntent :=
    recompute_of_waits hl' (by rw [hjumped.own_eq]; rfl) (by rw [hjumped.own_eq]; rfl)
  rw [hrests]
  exact arrives_setIntent hjumped hbooks

/-- The arrival is the same whatever the way. -/
lemma Arrives.unique {height gained : ℕ} (h : m.Arrives height gained x)
    (h' : m.Arrives height gained y) : y = { x with journal := y.journal } := by
  have halike : Alike x y :=
    ⟨h'.becomes.me.trans h.becomes.me.symm, h'.becomes.statuses.trans h.becomes.statuses.symm,
      h'.becomes.signatures.trans h.becomes.signatures.symm⟩
  refine halike.eq_of_sameBooks ?_ (h'.becomes.config.trans h.becomes.config.symm) ?_
  · exact ⟨h'.books.heardAt.trans h.books.heardAt.symm,
      h'.books.revoltSeen.trans h.books.revoltSeen.symm,
      h'.books.revoltsAgainst.trans h.books.revoltsAgainst.symm,
      h'.books.viewChanges.trans h.books.viewChanges.symm,
      h'.books.limitHits.trans h.books.limitHits.symm, h'.books.now.trans h.books.now.symm⟩
  · rw [h'.becomes.intent, h.becomes.intent, halike.idleIntent]

/-! ### Step by step -/

/-- The advances that lead `gained` heights up. -/
def advances (height gained : ℕ) : List Input :=
  (List.range' (height + 1) gained).map .heightAdvance

lemma advances_succ (height gained : ℕ) :
    advances height (gained + 1) = .heightAdvance (height + 1) :: advances (height + 1) gained := by
  simp [advances, List.range'_succ]

/-- The own counters have room for `gained` heights more. -/
structure HasHeadroom (m : Manager n) (gained : ℕ) : Prop where
  inRange : m.own.inRange = true
  height : m.own.height + gained ≤ Word.maxUnsigned
  serial : m.own.serial + gained ≤ Word.maxSigned

lemma HasHeadroom.advanceHeight {gained : ℕ} (h : m.HasHeadroom (gained + 1)) :
    m.advanceHeight.HasHeadroom gained := by
  obtain ⟨hin, hheight, hserial⟩ := h
  obtain ⟨-, -, hmin, -⟩ := of_decide_eq_true hin
  push_cast at hserial
  have hown := own_advanceHeight m
  refine ⟨?_, ?_, ?_⟩
  · rw [hown]
    refine decide_eq_true ⟨?_, Nat.zero_le _, ?_, ?_⟩ <;> simp only [NodeStatus.fresh] <;> omega
  · rw [hown]
    simp only [NodeStatus.fresh]
    omega
  · rw [hown]
    simp only [NodeStatus.fresh]
    omega

lemma HasHeadroom.handle_heightAdvance {gained : ℕ} (h : m.HasHeadroom (gained + 1)) :
    m.handle (.heightAdvance (m.own.height + 1)) = .ok (m.advanceHeight, true) := by
  have hsaturate : Word.saturate (m.own.height + 1) = m.own.height + 1 :=
    Nat.min_eq_left (by have := h.height; omega)
  have hrespond : m.respond (.heightAdvance (m.own.height + 1)) = (m.advanceHeight, true) := by
    rw [respond, onHeightAdvance, if_pos hsaturate.symm]
  have hin : (m.respond (.heightAdvance (m.own.height + 1))).1.own.inRange = true := by
    rw [hrespond]
    exact h.advanceHeight.inRange
  rw [handle_of_inRange hin, hrespond]

lemma HasHeadroom.run_advances {gained : ℕ} (h : m.HasHeadroom gained) :
    m.run (advances m.own.height gained) = .ok (advance gained m) := by
  induction gained generalizing m with
  | zero => rfl
  | succ gained ih =>
    have hheight : m.advanceHeight.own.height = m.own.height + 1 := by rw [own_advanceHeight]; rfl
    have hrest := ih h.advanceHeight
    rw [hheight] at hrest
    rw [advances_succ, run, h.handle_heightAdvance]
    exact hrest

lemma HasHeadroom.advance {gained heights : ℕ} (h : m.HasHeadroom (heights + gained)) :
    (advance heights m).HasHeadroom gained := by
  induction heights generalizing m with
  | zero => rwa [Nat.zero_add] at h
  | succ heights ih =>
    rw [Nat.add_right_comm] at h
    exact ih h.advanceHeight

lemma HasHeadroom.mono {gained gained' : ℕ} (h : m.HasHeadroom gained) (hle : gained' ≤ gained) :
    m.HasHeadroom gained' :=
  ⟨h.inRange, by have := h.height; omega, by have := h.serial; omega⟩

lemma HasHeadroom.handle_fastForward {committed : ℕ}
    (h : m.HasHeadroom (committed + 1 - m.own.height)) (hle : m.own.height ≤ committed + 1) :
    m.handle (.fastForward committed) =
      .ok (Manager.advance (committed + 1 - m.own.height) m, true) := by
  have hsaturate : Word.saturate (committed + 1) = committed + 1 :=
    Nat.min_eq_left (by have := h.height; omega)
  have hrespond : m.respond (.fastForward committed) =
      (Manager.advance (committed + 1 - m.own.height) m, true) := by
    simp only [respond, fastForward, hsaturate, if_neg (Nat.not_lt.mpr hle)]
  have hin : (m.respond (.fastForward committed)).1.own.inRange = true := by
    have hthere : (Manager.advance (committed + 1 - m.own.height) m).HasHeadroom 0 := h.advance
    rw [hrespond]
    exact hthere.inRange
  rw [handle_of_inRange hin, hrespond]

/-- A manager catches up with a chain, or is ahead of it already. -/
lemma exists_handle_fastForward {committed : ℕ} (hrange : m.own.inRange = true)
    (hserial : m.own.serial + (Word.saturate (committed + 1) - m.own.height : ℕ) ≤
      Word.maxSigned) :
    ∃ m' applied, m.handle (.fastForward committed) = .ok (m', applied) ∧
      m'.own.height = max m.own.height (Word.saturate (committed + 1)) := by
  have hword : Word.saturate (committed + 1) ≤ Word.maxUnsigned := Nat.min_le_right _ _
  have hheight := (of_decide_eq_true hrange).1
  have hroom : m.HasHeadroom (Word.saturate (committed + 1) - m.own.height) :=
    ⟨hrange, by omega, hserial⟩
  have hin : (m.respond (.fastForward committed)).1.own.inRange = true := by
    simp only [respond, fastForward]
    split
    · exact hrange
    · have hthere : (advance (Word.saturate (committed + 1) - m.own.height) m).HasHeadroom 0 :=
        hroom.advance
      exact hthere.inRange
  refine ⟨_, _, handle_of_inRange hin, ?_⟩
  change (m.respond (.fastForward committed)).1.own.height = _
  simp only [respond, fastForward]
  split
  · change m.own.height = _
    omega
  · rw [(own_advance _ m).1]
    omega

/-- A manager that may take three steps and whose counters have room catches up with the block at
`committed` exactly as if it were told of one height after the other, each of them the next one and
applied, with the same state and the same events at the end. If it gains any height, it ends where
a leap to the height after the block would have taken it, but for the events of the way: it waits
for a block with nothing in hand and the intent of the leap, its serial has grown by the heights
gained, and the records of the peers and the books are as before. If it gains none, nothing
changes. -/
theorem fastForward_eq_advances {committed : ℕ} (hlimit : 3 ≤ m.config.maxIterations)
    (hrange : m.own.inRange = true) (hle : m.own.height ≤ committed + 1)
    (hword : committed + 1 ≤ Word.maxUnsigned)
    (hserial : m.own.serial + (committed + 1 - m.own.height : ℕ) ≤ Word.maxSigned) :
    let gained := committed + 1 - m.own.height
    ∃ m', m.handle (.fastForward committed) = .ok (m', true) ∧
      m.run ((List.range' (m.own.height + 1) gained).map .heightAdvance) = .ok m' ∧
      (∀ k < gained, ∃ x y,
        m.run ((List.range' (m.own.height + 1) k).map .heightAdvance) = .ok x ∧
        x.own.height = m.own.height + k ∧
        x.handle (.heightAdvance (m.own.height + k + 1)) = .ok (y, true)) ∧
      (m.own.height < committed + 1 →
        m'.own = { height := committed + 1, serial := m.own.serial + gained, round := 0,
                   phase := .waitBlock, rid := none, revolting := false } ∧
        (∀ i, m'.signatures.get i = none) ∧
        (∀ i, i ≠ m.me → m'.statuses.get i = m.statuses.get i) ∧
        m'.heardAt = m.heardAt ∧ m'.now = m.now ∧
        m'.revoltSeen = m.revoltSeen ∧ m'.revoltsAgainst = m.revoltsAgainst ∧
        m'.intent = (m.leap (committed + 1)).intent ∧
        m' = { m.leap (committed + 1) with journal := m'.journal }) ∧
      (committed + 1 = m.own.height → m' = m) := by
  intro gained
  have hroom : m.HasHeadroom gained := ⟨hrange, by omega, hserial⟩
  refine ⟨advance gained m, hroom.handle_fastForward hle, hroom.run_advances, fun k hk => ?each,
    fun hlt => ?above, fun he => ?level⟩
  case each =>
    have hreached : (advance k m).own.height = m.own.height + k := (own_advance k m).1
    have hnext : (advance k m).HasHeadroom (0 + 1) := (hroom.mono hk).advance
    have happlied := hnext.handle_heightAdvance
    rw [hreached] at happlied
    exact ⟨advance k m, _, (hroom.mono hk.le).run_advances, hreached, happlied⟩
  case above =>
    obtain ⟨heights, hheights⟩ : ∃ heights, gained = heights + 1 :=
      Nat.exists_eq_succ_of_ne_zero (by omega)
    have harrives : m.Arrives (committed + 1) gained (advance gained m) := by
      have h := arrives_advance hlimit heights
      rw [← hheights] at h
      rwa [show m.own.height + gained = committed + 1 by omega] at h
    have hleap : advance gained m = { m.leap (committed + 1) with
        journal := (advance gained m).journal } := (arrives_leap hlimit _).unique harrives
    refine ⟨harrives.becomes.own_eq, fun i => ?_, fun i hi => harrives.becomes.peer hi,
      harrives.books.heardAt, harrives.books.now, harrives.books.revoltSeen,
      harrives.books.revoltsAgainst, ?_, hleap⟩
    · rw [harrives.becomes.signatures, Table.get_replicate]
    · rw [hleap]
  case level =>
    rw [show gained = 0 by omega]
    rfl

/-- A validator that revolts with a block in hand catches up by three heights: it is behind at both
heights on the way, and asks for the block of its primary at the top. -/
theorem fastForward_eq_advances_three :
    let level := NodeStatus.fresh 4 1
    let ahead := NodeStatus.mk 7 1 0 .haveBlock (some .zero) false
    let inputs : List Input :=
      [.status 1 level, .status 2 level, .status 3 ahead, .built .zero default, .revolt]
    ∃ m m', (start { maxIterations := 3 } (0 : Fin 4) 4 0).run inputs = .ok m ∧
      m.own = ⟨4, 2, 0, .haveBlock, some .zero, true⟩ ∧
      m.handle (.fastForward 6) = .ok (m', true) ∧
      m.run [.heightAdvance 5, .heightAdvance 6, .heightAdvance 7] = .ok m' ∧
      m'.own = ⟨7, 5, 0, .waitBlock, none, false⟩ ∧ m'.intent = .fetchUnfinishedBlock .zero := by
  intro level ahead inputs
  have hview : ((start { maxIterations := 3 } (0 : Fin 4) 4 0).run inputs).toOption.map
      (fun m => (m.own, (m.leap 7).intent)) =
        some (⟨4, 2, 0, .haveBlock, some .zero, true⟩, .fetchUnfinishedBlock .zero) := by
    decide +kernel
  obtain ⟨m, hm, hseen⟩ := Option.map_eq_some_iff.mp hview
  obtain ⟨hown, hintent⟩ := Prod.mk.inj hseen
  have hrun := ok_of_toOption hm
  have hlimit : 3 ≤ m.config.maxIterations := by
    rw [(fixed_run hrun).2, (fixed_start _ _ _ _).2]
  have hle : m.own.height ≤ 6 + 1 := by rw [hown]; decide
  obtain ⟨m', hforward, hsteps, -, habove, -⟩ := fastForward_eq_advances hlimit
    (by rw [hown]; decide) hle (by decide) (by rw [hown]; decide)
  obtain ⟨hown', -, -, -, -, -, -, hintent', -⟩ := habove (by rw [hown]; decide)
  rw [hown] at hsteps hown'
  exact ⟨m, m', hrun, hown, hforward, hsteps, hown', hintent'.trans hintent⟩

end Conclave.Manager

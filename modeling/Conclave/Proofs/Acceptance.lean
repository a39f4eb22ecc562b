import Conclave.Proofs.OwnProgress

/-!
# Which inputs are applied

For every input there is a condition on the state that decides whether it is applied. An input that
is turned down changes nothing and never leaves the range of a counter, with one exception: at the
last height there is, the next one saturates to the last one, so that advancing to it passes the
guard and runs into a fault.
-/

namespace Conclave.Manager

variable {n : ℕ} {m m' : Manager n}

/-- What it takes for an input to be applied. -/
def Accepts (m : Manager n) : Input → Prop
  | .status node s => ∃ i : Fin n, node = i ∧ i ≠ m.me ∧
      ((m.statuses.get i).serial < s.serial ∨ (m.statuses.get i).height < s.height ∨
        (s.height = (m.statuses.get i).height ∧ (m.statuses.get i).round < s.round))
  | .fastForward committed => m.own.height ≤ committed + 1
  | .heightAdvance height => height = m.own.height + 1
  | .committed rid => m.own.rid = some rid
  | .received rid _ => m.intent = .fetchUnfinishedBlock rid
  | .built _ _ => m.intent = .buildBlock ∧ m.primaryFor m.own.height m.own.round = m.me
  | .commitSignature node rid _ => node < n ∧ m.own.phase = .prepared ∧ m.own.rid = some rid
  | .revolt | .time _ | .recompute => True

/-- The height that an input names fits its word, and at the last height there is, the input does
not name that height once more. -/
def Input.Suits (height : ℕ) : Input → Prop
  | .heightAdvance next => next ≤ Word.maxUnsigned ∧
      ¬(height = Word.maxUnsigned ∧ next = Word.maxUnsigned)
  | _ => True

/-! ### The answer -/

lemma answer_iff {c : Prop} [Decidable c] :
    (if c then (m, true) else (m', false)).2 = true ↔ c := by
  split <;> simp_all

lemma fresher_iff {s old : NodeStatus} : s.fresher old = true ↔
    old.serial < s.serial ∨ old.height < s.height ∨
      (s.height = old.height ∧ old.round < s.round) := by
  simp [NodeStatus.fresher]

lemma applied_status_iff {node : ℕ} {s : NodeStatus} :
    (m.onStatus node s).2 = true ↔ m.Accepts (.status node s) := by
  unfold onStatus Accepts
  by_cases hn : node < n
  · rw [dif_pos hn]
    simp only
    by_cases hi : (⟨node, hn⟩ : Fin n) = m.me
    · rw [if_pos hi]
      simp only [Bool.false_eq_true, false_iff, not_exists, not_and]
      rintro i rfl hne
      exact (hne hi).elim
    · rw [if_neg hi]
      refine answer_iff.trans (fresher_iff.trans ⟨fun hf => ⟨⟨node, hn⟩, rfl, hi, hf⟩, ?_⟩)
      rintro ⟨i, rfl, -, hf⟩
      exact hf
  · rw [dif_neg hn]
    simp only [Bool.false_eq_true, false_iff, not_exists, not_and]
    rintro i rfl
    exact (hn i.isLt).elim

/-- Whether an input is applied depends on its condition only. -/
theorem applied_iff (hm : m.own.inRange = true) {input : Input} (hs : input.Suits m.own.height) :
    (m.respond input).2 = true ↔ m.Accepts input := by
  have hheight : m.own.height ≤ Word.maxUnsigned := (of_decide_eq_true hm).1
  cases input with
  | status node s => exact applied_status_iff
  | fastForward committed =>
    simp only [respond, fastForward, Accepts]
    split <;> simp only [Bool.false_eq_true, false_iff, true_iff] <;> unfold Word.saturate at * <;>
      omega
  | heightAdvance height =>
    obtain ⟨hword, hlast⟩ := hs
    refine answer_iff.trans ?_
    unfold Accepts Word.saturate
    omega
  | committed rid => exact answer_iff
  | received rid signature => exact answer_iff.trans decide_eq_true_iff
  | built rid signature =>
    simp only [respond, onBuilt, Accepts]
    split
    · simp_all
    · rename_i hi
      rw [not_not] at hi
      exact answer_iff.trans (decide_eq_true_iff.trans (and_iff_right hi).symm)
  | commitSignature node rid signature =>
    simp only [respond, onCommitSignature, Accepts]
    split
    · rename_i hn
      exact answer_iff.trans (and_iff_right hn).symm
    · rename_i hn
      simp [hn]
  | revolt | time | recompute => simp [respond, Accepts]

/-! ### Inputs that are turned down -/

/-- An input that is turned down leaves an event at most. -/
theorem unapplied_eq {input : Input} (h : (m.respond input).2 = false) :
    ∃ journal, m.respond input = ({ m with journal }, false) := by
  refine Exists.imp (fun journal he => Prod.ext he h) ?_
  cases ho : m.opening input with
  | some x =>
    rw [(respond_opening ho).2] at h
    cases h
  | none =>
    by_cases hf : ∃ committed, input = .fastForward committed
    · obtain ⟨committed, rfl⟩ := hf
      simp only [respond, fastForward] at h ⊢
      split at h
      · rename_i hlt
        rw [if_pos hlt]
        exact ⟨_, rfl⟩
      · cases h
    · rcases respond_unopened ho fun c hc => hf ⟨c, hc⟩ with ⟨-, he⟩ | ⟨cause, he⟩ | ⟨now, rfl⟩
      · exact ⟨m.journal, by rw [he]⟩
      · exact ⟨.rejected cause :: m.journal, by rw [he]; rfl⟩
      · cases h

/-! ### Room for the counters -/

lemma round_le_of_step {x : Manager n} (h : m.step = some x) : x.own.round ≤ m.own.round + 1 := by
  cases stride_of_step h with
  | catchUp _ _ _ becomes => rw [becomes.own_eq, dropped_round]; omega
  | nextRound _ _ _ becomes => rw [becomes.own_eq]; simp
  | await _ _ _ _ becomes => rw [becomes.own_eq]; omega
  | prepare _ _ _ _ becomes => rw [becomes.own_eq]; simp only; omega
  | commit _ _ _ _ becomes => rw [becomes.own_eq]; omega
  | gather _ _ _ _ _ _ _ becomes => rw [becomes.own_eq]; omega

lemma round_recompute_le (m : Manager n) : m.recompute.own.round ≤ m.own.round + 1 := by
  rcases own_settle m.config.maxIterations m with h | ⟨x, hx, h⟩
  · rw [recompute, h]
    omega
  · rw [recompute, h]
    exact round_le_of_step hx

lemma Opens.round_le {input : Input} {x : Manager n} (h : m.Opens input x) :
    x.own.round ≤ m.own.round := by
  cases h with
  | hear i s peer => rw [hear_own peer]
  | heightAdvance => rw [(becomes_climb m).own_eq]; exact Nat.zero_le _
  | committed => rw [(becomes_climb m).own_eq]; exact Nat.zero_le _
  | received rid signature => rw [(becomes_take m rid signature).own_eq]
  | built rid signature => rw [(becomes_take m rid signature).own_eq]
  | collect i rid signature => rw [(becomes_collect m i signature).own_eq]
  | rebel => rw [(becomes_rebel m).own_eq]
  | look => exact le_rfl

lemma round_advance_le (heights : ℕ) (m : Manager n) :
    (advance heights m).own.round ≤ m.own.round := by
  induction heights generalizing m with
  | zero => exact le_rfl
  | succ heights ih =>
    have hfirst : m.advanceHeight.own.round = 0 := by rw [own_advanceHeight]; rfl
    calc (advance heights m.advanceHeight).own.round
        ≤ m.advanceHeight.own.round := ih _
      _ ≤ m.own.round := by omega

lemma round_respond_le (m : Manager n) (input : Input) :
    (m.respond input).1.own.round ≤ m.own.round + 1 := by
  rcases respond_cases m input with ⟨x, hx, he⟩ | ⟨-, target, rfl, -⟩ | ⟨-, -, becomes⟩
  · have hopens := (opens_of_opening hx).round_le
    have hsettles := round_recompute_le x
    simp only [he]
    omega
  · simp only [respond, fastForward]
    split
    · exact Nat.le_succ _
    · exact (round_advance_le _ m).trans (Nat.le_succ _)
  · rw [becomes.own_eq]
    omega

/-- The serials that an input takes at most. -/
def Input.serials (height : ℕ) : Input → ℕ
  | .fastForward target => Word.saturate (target + 1) - height
  | _ => 3

/-- The counters fit their words also after the input. -/
structure HasRoom (m : Manager n) (input : Input) : Prop where
  height : input.heightAfter m.own.height true ≤ Word.maxUnsigned
  round : m.own.round < Word.maxUnsigned
  serial : m.own.serial + input.serials m.own.height ≤ Word.maxSigned

lemma serial_respond_le_serials {input : Input} (h : (m.respond input).2 = true) :
    (m.respond input).1.own.serial ≤ m.own.serial + input.serials m.own.height := by
  by_cases hf : ∃ committed, input = .fastForward committed
  · obtain ⟨committed, rfl⟩ := hf
    have hserial := serial_fastForward m committed
    have hheight := height_after_respond m (.fastForward committed)
    rw [h] at hheight
    simp only [Input.heightAfter, if_pos] at hheight
    simp only [Input.serials]
    omega
  · have hserial := serial_respond_le (m := m) fun committed hc => hf ⟨committed, hc⟩
    cases input with
    | fastForward committed => exact (hf ⟨committed, rfl⟩).elim
    | _ => exact hserial

lemma HasRoom.inRange {input : Input} (h : m.HasRoom input) (hm : m.own.inRange = true)
    (ha : (m.respond input).2 = true) : (m.respond input).1.own.inRange = true := by
  obtain ⟨-, -, hmin, -⟩ := of_decide_eq_true hm
  have hheight := height_after_respond m input
  rw [ha] at hheight
  have hround := (round_respond_le m input).trans h.round
  have hserial := (serial_respond_le_serials ha).trans h.serial
  have hgrows := hmin.trans (precedes_respond m input).serial_le
  exact decide_eq_true ⟨hheight.trans_le h.height, hround, hgrows, hserial⟩

/-! ### Exactly when, and nothing otherwise -/

/-- In every state, and for every input other than the advance from the last height to itself: the
answer says whether the condition of the input holds; an input whose condition holds is applied if
the counters have room for it; and one whose condition does not hold is turned down without a
fault and leaves nothing behind but an event. -/
theorem handle_applies_iff {input : Input} (hm : m.own.inRange = true)
    (hs : input.Suits m.own.height) :
    (∀ m' applied, m.handle input = .ok (m', applied) → (applied = true ↔ m.Accepts input)) ∧
    (m.Accepts input → m.HasRoom input → ∃ m', m.handle input = .ok (m', true)) ∧
    (¬m.Accepts input → ∃ journal, m.handle input = .ok ({ m with journal }, false)) := by
  have hiff := applied_iff hm hs
  refine ⟨fun m' applied h => ?answer, fun ha hroom => ?applied, fun ha => ?unapplied⟩
  case answer =>
    rw [respond_of_handle h] at hiff
    exact hiff
  case applied =>
    have happlied := hiff.mpr ha
    exact ⟨_, (handle_of_inRange (hroom.inRange hm happlied)).trans
      (congrArg Except.ok (Prod.ext rfl happlied))⟩
  case unapplied =>
    obtain ⟨journal, he⟩ := unapplied_eq (Bool.eq_false_iff.mpr fun h => ha (hiff.mp h))
    refine ⟨journal, (handle_of_inRange ?_).trans (congrArg Except.ok he)⟩
    rw [he]
    exact hm

/-- At the last height there is, catching up saturates to where the manager is, and going back is
turned down. -/
theorem handle_applies_at_last_height :
    let m := start {} (0 : Fin 4) Word.maxUnsigned 0
    (∃ m', m.handle (.fastForward Word.maxUnsigned) = .ok (m', true)) ∧
      ∃ journal, m.handle (.heightAdvance 0) = .ok ({ m with journal }, false) := by
  intro m
  have hown : m.own = .fresh Word.maxUnsigned 0 := by decide +kernel
  have hm : m.own.inRange = true := by rw [hown]; decide
  have haccepts : m.Accepts (.fastForward Word.maxUnsigned) := by rw [Accepts, hown]; decide
  have hroom : m.HasRoom (.fastForward Word.maxUnsigned) := by
    constructor <;> rw [hown] <;> decide +kernel
  have hback : ¬m.Accepts (.heightAdvance 0) := by rw [Accepts, hown]; decide
  have hsuits : (Input.heightAdvance 0).Suits m.own.height := by rw [Input.Suits]; decide
  have hcatchesUp : (Input.fastForward Word.maxUnsigned).Suits m.own.height := trivial
  exact ⟨(handle_applies_iff hm hcatchesUp).2.1 haccepts hroom,
    (handle_applies_iff hm hsuits).2.2 hback⟩

/-- The successor of the last height saturates to the last height, so the guard lets an advance to
it pass and the height overflows. -/
theorem advance_at_last_height_faults :
    let m := start {} (0 : Fin 4) Word.maxUnsigned 0
    m.own.inRange = true ∧ ¬m.Accepts (.heightAdvance Word.maxUnsigned) ∧
      m.handle (.heightAdvance Word.maxUnsigned) = .error .counterOverflow := by
  intro m
  have hown : m.own = .fresh Word.maxUnsigned 0 := by decide +kernel
  refine ⟨by rw [hown]; decide, by rw [Accepts, hown]; decide, ?_⟩
  have hfault : (m.handle (.heightAdvance Word.maxUnsigned)).toOption = none := by decide +kernel
  rw [handle] at hfault ⊢
  split at hfault
  · cases hfault
  · rename_i hout
    exact if_neg hout

end Conclave.Manager

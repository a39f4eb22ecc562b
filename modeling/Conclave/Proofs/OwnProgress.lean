import Conclave.Proofs.InputEffects
import Conclave.Proofs.Settling

/-!
# Progress of the own status

The own status moves forward only: with every change the serial grows, and neither the height nor,
at one height, the round ever falls. An input makes few changes, so that the serial grows by a
little at most, and the height is left only on inputs that say so. The records of the peers change
only when a peer is heard.
-/

namespace Conclave

/-- The status `t` is `s` or a later one of the same validator. -/
structure NodeStatus.Precedes (s t : NodeStatus) : Prop where
  serial : t = s ∨ s.serial < t.serial
  order : s.height < t.height ∨ (t.height = s.height ∧ s.round ≤ t.round)

section Precedes

open NodeStatus (Precedes)

variable {s t u : NodeStatus}

lemma precedes_refl (s : NodeStatus) : Precedes s s := ⟨.inl rfl, .inr ⟨rfl, le_rfl⟩⟩

lemma NodeStatus.Precedes.serial_le (h : Precedes s t) : s.serial ≤ t.serial := by
  rcases h.serial with rfl | hlt
  · exact le_rfl
  · exact hlt.le

lemma NodeStatus.Precedes.trans (h : Precedes s t) (h' : Precedes t u) : Precedes s u where
  serial := by
    rcases h'.serial with rfl | hlt
    · exact h.serial
    · exact .inr (h.serial_le.trans_lt hlt)
  order := by
    have hst := h.order
    have htu := h'.order
    omega

/-- A change at one height that takes its own serial. -/
lemma precedes_of_serial_lt (hs : s.serial < t.serial) (hh : t.height = s.height)
    (hr : s.round ≤ t.round) : Precedes s t := ⟨.inr hs, .inr ⟨hh, hr⟩⟩

end Precedes

namespace Manager

open NodeStatus (Precedes)

variable {n : ℕ} {m m' x y : Manager n}

/-! ### Moves go forward -/

lemma precedes_dropped (s : NodeStatus) : Precedes s (dropped s) := by
  unfold dropped
  split
  · exact precedes_of_serial_lt (Int.lt_succ _) rfl le_rfl
  · exact precedes_refl s

lemma serial_dropped_le (s : NodeStatus) : (dropped s).serial ≤ s.serial + 1 := by
  unfold dropped
  split
  · exact le_rfl
  · exact (Int.lt_succ _).le

lemma precedes_of_step (h : m.step = some x) : Precedes m.own x.own := by
  cases stride_of_step h with
  | catchUp _ _ _ becomes =>
    rw [becomes.own_eq]
    exact precedes_dropped _
  | nextRound _ _ _ becomes =>
    rw [becomes.own_eq]
    exact (precedes_dropped _).trans (precedes_of_serial_lt (Int.lt_succ _) rfl (Nat.le_succ _))
  | await _ _ _ _ becomes =>
    rw [becomes.own_eq]
    exact precedes_refl _
  | prepare _ _ _ _ becomes =>
    rw [becomes.own_eq]
    exact precedes_of_serial_lt (Int.lt_succ _) rfl le_rfl
  | commit _ _ _ _ becomes =>
    rw [becomes.own_eq]
    exact precedes_refl _
  | gather _ _ _ _ _ _ _ becomes =>
    rw [becomes.own_eq]
    exact precedes_refl _

lemma Move.precedes {input : Input} (h : Move input x y) : Precedes x.own y.own := by
  cases h with
  | rest => exact precedes_refl _
  | step h => exact precedes_of_step h
  | cutOff => exact precedes_refl _
  | reject => exact precedes_refl _
  | setTime => exact precedes_refl _
  | hear i s told peer fresher =>
    rw [hear_own peer]
    exact precedes_refl _
  | climb =>
    rw [(becomes_climb x).own_eq]
    exact ⟨.inr (Int.lt_succ _), .inl (Nat.lt_succ_self _)⟩
  | take rid signature =>
    rw [(becomes_take x rid signature).own_eq]
    exact precedes_of_serial_lt (Int.lt_succ _) rfl le_rfl
  | collect i rid signature =>
    rw [(becomes_collect x i signature).own_eq]
    exact precedes_refl _
  | rebel =>
    rw [(becomes_rebel x).own_eq]
    exact precedes_of_serial_lt (Int.lt_succ _) rfl le_rfl

theorem precedes_respond (m : Manager n) (input : Input) :
    Precedes m.own (m.respond input).1.own :=
  respond_invariant (P := fun x => Precedes m.own x.own) (precedes_refl _)
    fun _ _ hmove hx => hx.trans hmove.precedes

/-! ### How far the serial gets -/

lemma serial_le_of_step (h : m.step = some x) : x.own.serial ≤ m.own.serial + 2 := by
  have hd := serial_dropped_le m.own
  cases stride_of_step h with
  | catchUp _ _ _ becomes => rw [becomes.own_eq]; omega
  | nextRound _ _ _ becomes => rw [becomes.own_eq]; simp only; omega
  | await _ _ _ _ becomes => rw [becomes.own_eq]; omega
  | prepare _ _ _ _ becomes => rw [becomes.own_eq]; simp only; omega
  | commit _ _ _ _ becomes => rw [becomes.own_eq]; omega
  | gather _ _ _ _ _ _ _ becomes => rw [becomes.own_eq]; omega

/-- However early it is cut off, a recompute changes the own status in its first step or never. -/
lemma own_settle (limit : ℕ) (m : Manager n) :
    (settle limit m).own = m.own ∨ ∃ x, m.step = some x ∧ (settle limit m).own = x.own := by
  cases limit with
  | zero => exact .inl (becomes_cutOff m).own_eq
  | succ limit =>
    rw [settle_succ]
    cases hm : m.step with
    | none => exact .inl rfl
    | some x =>
      refine .inr ⟨x, rfl, ?_⟩
      rw [Option.map_some, Option.getD_some]
      cases limit with
      | zero => exact (becomes_cutOff x).own_eq
      | succ limit =>
        rw [settle_succ]
        cases hx : x.step with
        | none => rfl
        | some y =>
          -- The second step changes no more than the intent, and there is no third one.
          obtain ⟨becomes, hy⟩ := settled_of_steps hm hx
          rw [Option.map_some, Option.getD_some, ← becomes.own_eq]
          cases limit with
          | zero => exact (becomes_cutOff y).own_eq
          | succ limit => rw [hy.settle_eq]

lemma serial_recompute_le (m : Manager n) : m.recompute.own.serial ≤ m.own.serial + 2 := by
  rcases own_settle m.config.maxIterations m with h | ⟨x, hx, h⟩
  · rw [recompute, h]
    omega
  · rw [recompute, h]
    exact serial_le_of_step hx

lemma Opens.serial_le {input : Input} (h : m.Opens input x) :
    x.own.serial ≤ m.own.serial + 1 := by
  cases h with
  | hear i s peer => rw [hear_own peer]; omega
  | heightAdvance => rw [(becomes_climb m).own_eq]
  | committed => rw [(becomes_climb m).own_eq]
  | received rid signature => rw [(becomes_take m rid signature).own_eq]
  | built rid signature => rw [(becomes_take m rid signature).own_eq]
  | collect i rid signature => rw [(becomes_collect m i signature).own_eq]; omega
  | rebel => rw [(becomes_rebel m).own_eq]
  | look => omega

/-- One serial for what the input itself brings, and two for a block that is dropped in a change of
rounds. -/
lemma serial_respond_le {input : Input} (hf : ∀ committed, input ≠ .fastForward committed) :
    (m.respond input).1.own.serial ≤ m.own.serial + 3 := by
  rcases respond_cases m input with ⟨x, hx, he⟩ | ⟨-, committed, hc, -⟩ | ⟨-, -, becomes⟩
  · have hopens := (opens_of_opening hx).serial_le
    have hsettles := serial_recompute_le x
    simp only [he]
    omega
  · exact (hf committed hc).elim
  · rw [becomes.own_eq]
    omega

/-! ### Climbing -/

/-- A manager that waits without a revolt changes no more than its intent. -/
lemma own_recompute_of_waits (hp : m.own.phase = .waitBlock) (hr : m.own.revolting = false) :
    m.recompute.own = m.own := by
  rcases own_settle m.config.maxIterations m with h | ⟨x, hx, h⟩
  · exact h
  · rw [recompute, h]
    cases stride_of_step hx with
    | catchUp _ _ _ becomes => rw [becomes.own_eq, dropped_of_ne (by simp [hp])]
    | nextRound _ revolting => simp [hr] at revolting
    | await _ _ _ _ becomes => rw [becomes.own_eq]
    | prepare _ _ phase => simp [hp] at phase
    | commit _ phase => simp [hp] at phase
    | gather _ phase => simp [hp] at phase

/-- The first own status at a height. -/
lemma own_advanceHeight (m : Manager n) :
    m.advanceHeight.own = .fresh (m.own.height + 1) (m.own.serial + 1) := by
  have hclimb : m.climb.own = .fresh (m.own.height + 1) (m.own.serial + 1) :=
    (becomes_climb m).own_eq
  have hidle : m.climb.recompute.own = m.climb.own :=
    own_recompute_of_waits (by rw [hclimb]; rfl) (by rw [hclimb]; rfl)
  exact hidle.trans hclimb

lemma own_advance (heights : ℕ) (m : Manager n) :
    (advance heights m).own.height = m.own.height + heights ∧
      (advance heights m).own.serial = m.own.serial + heights := by
  induction heights generalizing m with
  | zero => simp [advance]
  | succ heights ih =>
    obtain ⟨hh, hs⟩ := ih m.advanceHeight
    rw [advance, hh, hs, own_advanceHeight]
    simp only [NodeStatus.fresh]
    omega

/-- The height that an input leads to, if it is applied. -/
def Input.heightAfter (height : ℕ) (applied : Bool) : Input → ℕ
  | .heightAdvance _ | .committed _ => if applied then height + 1 else height
  | .fastForward target => if applied then Word.saturate (target + 1) else height
  | _ => height

lemma height_after_grown {input : Input}
    (hi : (∃ height, input = .heightAdvance height) ∨ ∃ rid, input = .committed rid) :
    (m.respond input).1.own.height =
      if (m.respond input).2 then m.own.height + 1 else m.own.height := by
  rcases respond_grown m hi with he | ⟨cause, he⟩
  · rw [he]
    exact height_advanceHeight m
  · rw [he]
    rfl

theorem height_after_respond (m : Manager n) (input : Input) :
    (m.respond input).1.own.height = input.heightAfter m.own.height (m.respond input).2 := by
  cases input with
  | heightAdvance height => exact height_after_grown (.inl ⟨height, rfl⟩)
  | committed rid => exact height_after_grown (.inr ⟨rid, rfl⟩)
  | fastForward committed =>
    simp only [respond, fastForward, Input.heightAfter]
    split
    · rfl
    · rw [(own_advance _ m).1, if_pos rfl]
      omega
  | status node s => exact height_respond rfl
  | received rid signature => exact height_respond rfl
  | built rid signature => exact height_respond rfl
  | commitSignature node rid signature => exact height_respond rfl
  | revolt => exact height_respond rfl
  | time now => exact height_respond rfl
  | recompute => exact height_respond rfl

lemma serial_fastForward (m : Manager n) (committed : ℕ) :
    (m.respond (.fastForward committed)).1.own.serial - m.own.serial =
      (m.respond (.fastForward committed)).1.own.height - m.own.height := by
  simp only [respond, fastForward]
  split
  · simp [reject]
  · obtain ⟨hh, hs⟩ := own_advance (Word.saturate (committed + 1) - m.own.height) m
    simp only [hh, hs]
    omega

/-! ### The records of the peers -/

lemma record_of_step (h : x.step = some y) {i : Fin n} (hi : i ≠ x.me) :
    y.statuses.get i = x.statuses.get i := by
  cases stride_of_step h with
  | catchUp _ _ _ becomes => exact becomes.peer hi
  | nextRound _ _ _ becomes => exact becomes.peer hi
  | await _ _ _ _ becomes => exact becomes.peer hi
  | prepare _ _ _ _ becomes => exact becomes.peer hi
  | commit _ _ _ _ becomes => exact becomes.peer hi
  | gather _ _ _ _ _ _ _ becomes => exact becomes.peer hi

/-- A record changes only to what was told of its validator. -/
lemma Move.record {input : Input} (h : Move input x y) {i : Fin n} (hi : i ≠ x.me) :
    y.statuses.get i = x.statuses.get i ∨ input = .status i (y.statuses.get i) := by
  cases h with
  | rest => exact .inl rfl
  | step h => exact .inl (record_of_step h hi)
  | cutOff => exact .inl rfl
  | reject => exact .inl rfl
  | setTime => exact .inl rfl
  | hear j s told peer fresher =>
    rw [hear_statuses, Table.get_put]
    split
    · rename_i hij
      subst hij
      exact .inr told
    · exact .inl rfl
  | climb => exact .inl ((becomes_climb x).peer hi)
  | take rid signature => exact .inl ((becomes_take x rid signature).peer hi)
  | collect j rid signature => exact .inl ((becomes_collect x j signature).peer hi)
  | rebel => exact .inl ((becomes_rebel x).peer hi)

/-- The record `s` that `me` has of a validator stays if the input tells nothing of it. -/
lemma Move.keeps_record {input : Input} (h : Move input x y) {me i : Fin n} {s : NodeStatus}
    (hi : i ≠ me) (hs : ∀ s, input ≠ .status i s) (hx : x.me = me ∧ x.statuses.get i = s) :
    y.me = me ∧ y.statuses.get i = s := by
  obtain ⟨rfl, rfl⟩ := hx
  exact ⟨h.fixed.1, (h.record hi).resolve_right fun he => hs _ he⟩

lemma record_of_untold {input : Input} {i : Fin n} (hi : i ≠ m.me)
    (hs : ∀ s, input ≠ .status i s) :
    (m.respond input).1.statuses.get i = m.statuses.get i :=
  (respond_invariant (P := fun x => x.me = m.me ∧ x.statuses.get i = m.statuses.get i) ⟨rfl, rfl⟩
    fun _ _ hmove hx => hmove.keeps_record hi hs hx).2

lemma record_recompute {i : Fin n} (hi : i ≠ m.me) :
    m.recompute.statuses.get i = m.statuses.get i :=
  (record_of_untold hi (by simp) : (m.respond .recompute).1.statuses.get i = m.statuses.get i)

theorem record_respond (m : Manager n) (input : Input) {i : Fin n} (hi : i ≠ m.me) :
    (m.respond input).1.statuses.get i = m.statuses.get i ∨
      ((m.respond input).2 = true ∧ input = .status i ((m.respond input).1.statuses.get i)) := by
  rcases respond_cases m input with ⟨x, hx, he⟩ | ⟨-, committed, rfl, -⟩ | ⟨-, -, becomes⟩
  · have hmove := (respond_opening hx).1
    rw [he, record_recompute (by rwa [hmove.fixed.1])]
    exact (hmove.record hi).imp id fun htold => ⟨rfl, htold⟩
  · exact .inl (record_of_untold hi (by simp))
  · exact .inl (becomes.peer hi)

/-! ### One input -/

/-- Whatever a manager has come to and whatever it is told, as long as its counters have room: its
height and round do not fall back; the height moves by one with a block that is committed at it, to
the height after the last committed one when catching up, and not otherwise; the serial grows with
every change of the own status, by the heights gained when catching up and by at most three
otherwise; and the record of a peer changes only when a status of that peer is applied. -/
theorem own_status_advances {input : Input} {applied : Bool}
    (h : m.handle input = .ok (m', applied)) :
    (m.own.height < m'.own.height ∨
      (m'.own.height = m.own.height ∧ m.own.round ≤ m'.own.round)) ∧
    m'.own.height = input.heightAfter m.own.height applied ∧
    m.own.serial ≤ m'.own.serial ∧
    (m'.own ≠ m.own → m.own.serial < m'.own.serial) ∧
    ((∃ committed, input = .fastForward committed) →
      m'.own.serial - m.own.serial = m'.own.height - m.own.height) ∧
    ((∀ committed, input ≠ .fastForward committed) → m'.own.serial ≤ m.own.serial + 3) ∧
    ∀ i, i ≠ m.me → m'.statuses.get i ≠ m.statuses.get i →
      applied = true ∧ input = .status i (m'.statuses.get i) := by
  obtain ⟨rfl, rfl⟩ := Prod.ext_iff.mp (respond_of_handle h)
  have hprecedes := precedes_respond m input
  refine ⟨hprecedes.order, height_after_respond m input, hprecedes.serial_le,
    hprecedes.serial.resolve_left, ?catchingUp, serial_respond_le,
    fun i hi hne => (record_respond m input hi).resolve_left hne⟩
  case catchingUp =>
    rintro ⟨committed, rfl⟩
    exact serial_fastForward m committed

/-- The third vote against the primary is its own: it revolts, drops its block and goes on to the
next round. -/
theorem own_status_advances_dropping :
    let peer := NodeStatus.mk 0 1 0 .waitBlock none true
    let inputs : List Input := [.built .zero default, .status 1 peer, .status 2 peer]
    ∃ m m', (start {} (0 : Fin 4) 0 0).run inputs = .ok m ∧ m.handle .revolt = .ok (m', true) ∧
      m.own = ⟨0, 1, 0, .haveBlock, some .zero, false⟩ ∧
      m'.own = ⟨0, 4, 1, .waitBlock, none, false⟩ ∧ m.own.serial < m'.own.serial ∧
      m'.own.serial ≤ m.own.serial + 3 := by
  intro peer inputs
  have hview : ((start {} (0 : Fin 4) 0 0).run inputs).toOption.map
      (fun m => (m.own, (m.handle .revolt).toOption.map fun r => (r.1.own, r.2))) =
        some (⟨0, 1, 0, .haveBlock, some .zero, false⟩,
          some (⟨0, 4, 1, .waitBlock, none, false⟩, true)) := by decide +kernel
  obtain ⟨m, hm, hseen⟩ := Option.map_eq_some_iff.mp hview
  obtain ⟨hown, hlast⟩ := Prod.mk.inj hseen
  obtain ⟨⟨m', applied⟩, hm', hseen'⟩ := Option.map_eq_some_iff.mp hlast
  obtain ⟨hown', rfl⟩ := Prod.mk.inj hseen'
  have hhandle := ok_of_toOption hm'
  obtain ⟨-, -, -, hgrows, -, hlittle, -⟩ := own_status_advances hhandle
  have hne : m'.own ≠ m.own := by
    rw [hown, hown']
    decide
  exact ⟨m, m', ok_of_toOption hm, hhandle, hown, hown', hgrows hne, hlittle (by simp)⟩

end Manager

end Conclave

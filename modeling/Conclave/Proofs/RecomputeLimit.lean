import Conclave.Proofs.Settling

/-!
# The limit of a recompute

Whatever state a status manager is in, the third step of a recompute finds nothing left to do. A
manager that may take three steps is therefore never cut off: it counts no hit of its limit, reports
none, and rests after every input, so that another recompute is idle.
-/

namespace Conclave.Manager

variable {n : ℕ} {m x y : Manager n}

/-! ### Three steps -/

/-- A step is followed by at most one other. -/
theorem third_step_eq_none (h : m.step = some x) (h' : x.step = some y) : y.step = none :=
  step_eq_none_iff.mpr (settled_of_steps h h').2

/-- What every step preserves is kept by a recompute that may take three. -/
lemma settle_invariant {P : Manager n → Prop} {limit : ℕ} (hl : 3 ≤ limit) (hP : P m)
    (hstep : ∀ x y, x.step = some y → P x → P y) : P (settle limit m) := by
  obtain ⟨k, rfl⟩ := Nat.exists_eq_add_of_le' hl
  rw [settle_succ]
  cases hm : m.step with
  | none => exact hP
  | some x =>
    have hx : P x := hstep m x hm hP
    rw [Option.map_some, Option.getD_some, settle_succ]
    cases hs : x.step with
    | none => exact hx
    | some y =>
      rw [Option.map_some, Option.getD_some, (settled_of_steps hm hs).2.settle_eq]
      exact hstep x y hs hx

lemma Settled.recompute_eq (hm : m.Settled) (hl : 0 < m.config.maxIterations) :
    m.recompute = m := by
  obtain ⟨k, hk⟩ := Nat.exists_eq_add_of_le' hl
  rw [recompute, hk]
  exact hm.settle_eq k

/-! ### Books without a hit of the limit -/

/-- From `m` to `m'` the limit is not hit: the count of hits is the same, and of the events that are
new none tells of one. -/
structure Unhindered (m m' : Manager n) : Prop where
  limitHits : m'.limitHits = m.limitHits
  journal : ∃ events, m'.journal = events ++ m.journal ∧ ∀ k, .limitReached k ∉ events

lemma unhindered_refl (m : Manager n) : Unhindered m m := ⟨rfl, [], rfl, by simp⟩

namespace Unhindered

lemma trans (h : Unhindered m x) (h' : Unhindered x y) : Unhindered m y where
  limitHits := h'.limitHits.trans h.limitHits
  journal := by
    obtain ⟨events, he, hno⟩ := h.journal
    obtain ⟨events', he', hno'⟩ := h'.journal
    refine ⟨events' ++ events, by rw [he', he, List.append_assoc], fun k hk => ?_⟩
    rcases List.mem_append.mp hk with hk | hk
    · exact hno' k hk
    · exact hno k hk

/-- Only the books count. -/
lemma congr (h : Unhindered m x) (hh : y.limitHits = x.limitHits) (hj : y.journal = x.journal) :
    Unhindered m y := by
  refine ⟨hh.trans h.limitHits, ?_⟩
  rw [hj]
  exact h.journal

lemma record (h : Unhindered m x) (e : Event) (he : ∀ k, e ≠ .limitReached k) :
    Unhindered m (x.record e) :=
  h.trans ⟨rfl, [e], rfl, fun k hk => he k (List.mem_singleton.mp hk).symm⟩

lemma modifyOwn (h : Unhindered m x) (f : NodeStatus → NodeStatus) :
    Unhindered m (x.modifyOwn f) := h.congr rfl rfl

lemma clearSignatures (h : Unhindered m x) : Unhindered m x.clearSignatures := h.congr rfl rfl

lemma collect (h : Unhindered m x) (i : Fin n) (signature : Signature) :
    Unhindered m (x.collect i signature) := h.congr rfl rfl

lemma setIntent (h : Unhindered m x) (intent : Intent) : Unhindered m (x.setIntent intent) := by
  unfold Manager.setIntent
  split
  · exact h
  · exact (h.record (.intentChanged x.intent intent) (by simp)).congr rfl rfl

lemma setPhase (h : Unhindered m x) (phase : Phase) : Unhindered m (x.setPhase phase) := by
  unfold Manager.setPhase
  split
  · exact h
  · exact (h.modifyOwn _).record _ (by simp)

lemma dropUnprepared (h : Unhindered m x) : Unhindered m x.dropUnprepared := by
  unfold Manager.dropUnprepared
  split
  · exact ((h.setPhase .waitBlock).modifyOwn _).clearSignatures
  · exact h

lemma advanceRound (h : Unhindered m x) : Unhindered m x.advanceRound :=
  ((h.dropUnprepared.modifyOwn _).record _ (by simp)).congr rfl rfl

lemma step (h : Unhindered m x) (hs : x.step = some y) : Unhindered m y := by
  cases makes_of_step hs with
  | setIntent intent => exact h.setIntent intent
  | catchUp => exact h.dropUnprepared.setIntent _
  | advanceRound => exact h.advanceRound
  | prepare => exact (h.setPhase .prepared).modifyOwn _

lemma recompute (h : Unhindered m x) (hl : 3 ≤ x.config.maxIterations) :
    Unhindered m x.recompute :=
  settle_invariant hl h fun _ _ hs hx => hx.step hs

lemma climb (h : Unhindered m x) : Unhindered m x.climb :=
  ((((h.modifyOwn _).setPhase .waitBlock).clearSignatures).setIntent .doNothing).record _ (by simp)

lemma take (h : Unhindered m x) (rid : Rid) (signature : Signature) :
    Unhindered m (x.take rid signature) := by
  have htaken := (h.clearSignatures.modifyOwn fun s =>
    { s with rid := some rid, serial := s.serial + 1 }).setPhase .haveBlock
  exact (htaken.collect _ signature).setIntent .doNothing

lemma hear (h : Unhindered m x) (i : Fin n) (s : NodeStatus) : Unhindered m (x.hear i s) := by
  have hheard : Unhindered m { x with heardAt := x.heardAt.put i (some x.now) } := h.congr rfl rfl
  unfold Manager.hear noteRevolt
  split
  · exact hheard.congr rfl rfl
  · exact (hheard.record _ (by simp)).congr rfl rfl

lemma advance (h : Unhindered m x) (hl : 3 ≤ x.config.maxIterations) (heights : ℕ) :
    Unhindered m (advance heights x) := by
  induction heights generalizing x with
  | zero => exact h
  | succ heights ih =>
    have hup : Unhindered m x.advanceHeight :=
      h.climb.recompute (by rwa [(becomes_climb x).config])
    exact ih hup (by rwa [config_advanceHeight])

lemma opens (h : Unhindered m x) {input : Input} (ho : x.Opens input y) : Unhindered m y := by
  cases ho with
  | hear i s => exact h.hear i s
  | heightAdvance => exact h.climb
  | committed => exact h.climb
  | received rid signature => exact h.take rid signature
  | built rid signature => exact h.take rid signature
  | collect i rid signature => exact h.collect i signature
  | rebel => exact h.modifyOwn _
  | look => exact h

end Unhindered

/-- No input to a manager that may take three steps hits the limit. -/
theorem unhindered_respond (hl : 3 ≤ m.config.maxIterations) (input : Input) :
    Unhindered m (m.respond input).1 := by
  have hself := m.unhindered_refl
  cases ho : m.opening input with
  | some x =>
    rw [(respond_opening ho).2]
    exact (hself.opens (opens_of_opening ho)).recompute (by rwa [config_opening ho])
  | none =>
    by_cases hf : ∃ committed, input = .fastForward committed
    · obtain ⟨committed, rfl⟩ := hf
      simp only [respond, fastForward]
      split
      · exact hself.record _ (by simp)
      · exact hself.advance hl _
    · rcases respond_of_opening_eq_none ho fun c hc => hf ⟨c, hc⟩ with he | ⟨cause, he⟩ | ⟨now, he⟩
      · rw [he]
        exact hself
      · rw [he]
        exact hself.record _ (by simp)
      · rw [he]
        exact hself.congr rfl rfl

/-! ### Runs -/

/-- No hit of the limit was ever counted or reported. -/
def NeverHit (m : Manager n) : Prop := m.limitHits = 0 ∧ ∀ k, .limitReached k ∉ m.journal

lemma NeverHit.unhindered (hm : m.NeverHit) (h : Unhindered m x) : x.NeverHit := by
  obtain ⟨events, he, hno⟩ := h.journal
  refine ⟨h.limitHits.trans hm.1, fun k hk => ?_⟩
  rw [he] at hk
  rcases List.mem_append.mp hk with hk | hk
  · exact hno k hk
  · exact hm.2 k hk

lemma neverHit_recompute_blank {config : Config} (hl : 3 ≤ config.maxIterations) (me : Fin n)
    (height : ℕ) (serial : ℤ) : (blank config me height serial).recompute.NeverHit := by
  have hblank : (blank config me height serial).NeverHit := ⟨rfl, by simp [blank]⟩
  exact hblank.unhindered ((unhindered_refl _).recompute hl)

lemma neverHit_start {config : Config} (hl : 3 ≤ config.maxIterations) (me : Fin n)
    (height wallMillis : ℕ) : (start config me height wallMillis).NeverHit :=
  ⟨(neverHit_recompute_blank hl me height _).1, by simp [start]⟩

lemma NeverHit.run (hl : 3 ≤ m.config.maxIterations) (hm : m.NeverHit) {inputs : List Input}
    (h : m.run inputs = .ok x) : x.NeverHit :=
  run_induction_of_config hm
    (fun _ input hc hx => hx.unhindered (unhindered_respond (by rwa [hc]) input)) h

/-- From whatever state it begins, the third step of a recompute has nothing left to do. A manager
that may take three steps or more thus never hits its limit, neither while it is set up nor later,
not even in an input that ends its run with a fault; it is at rest after every input, and to look
again then changes nothing, its journal included. -/
theorem recompute_comes_to_rest :
    (∀ m : Manager n, m.step = none ∨ ∃ x, m.step = some x ∧
      (x.step = none ∨ ∃ y, x.step = some y ∧ y.step = none)) ∧
    ∀ (config : Config) (me : Fin n) (height wallMillis : ℕ), 3 ≤ config.maxIterations →
      (∀ serial, (blank config me height serial).recompute.NeverHit) ∧
      ∀ inputs m, (start config me height wallMillis).run inputs = .ok m →
        m.NeverHit ∧ m.step = none ∧ m.recompute = m ∧
          ∀ input, (m.respond input).1.NeverHit ∧ (m.respond input).1.step = none := by
  refine ⟨fun m => ?steps, fun config me height wallMillis hl =>
    ⟨neverHit_recompute_blank hl me height, fun inputs m hrun => ?runs⟩⟩
  case steps =>
    cases hm : m.step with
    | none => exact .inl rfl
    | some x =>
      refine .inr ⟨x, rfl, ?_⟩
      cases hx : x.step with
      | none => exact .inl rfl
      | some y => exact .inr ⟨y, rfl, third_step_eq_none hm hx⟩
  case runs =>
    have hconfig : m.config = config :=
      (fixed_run hrun).2.trans (fixed_start config me height wallMillis).2
    have hstart : 3 ≤ (start config me height wallMillis).config.maxIterations := by
      rwa [(fixed_start config me height wallMillis).2]
    have hlimit : 3 ≤ m.config.maxIterations := by rwa [hconfig]
    have hnever : m.NeverHit := (neverHit_start hl me height wallMillis).run hstart hrun
    have hrest : m.Settled := (settled_start hl me height wallMillis).run hstart hrun
    refine ⟨hnever, step_eq_none_iff.mpr hrest, hrest.recompute_eq (by omega),
      fun input => ⟨?_, ?_⟩⟩
    · exact hnever.unhindered (unhindered_respond hlimit input)
    · exact step_eq_none_iff.mpr (hrest.respond hlimit input)

/-- The primary gives itself up with two others, so one recompute takes two steps: the next round,
and the end of building. -/
theorem recompute_comes_to_rest_revolt :
    let peer := NodeStatus.mk 0 1 0 .waitBlock none true
    let inputs : List Input := [.revolt, .status 1 peer, .status 2 peer]
    ∃ m, (start { maxIterations := 3 } (0 : Fin 4) 0 0).run inputs = .ok m ∧ m.own.round = 1 ∧
      m.intent = .doNothing ∧ m.NeverHit ∧ m.recompute = m := by
  intro peer inputs
  have hview : ((start { maxIterations := 3 } (0 : Fin 4) 0 0).run inputs).toOption.map
      (fun m => (m.own.round, m.intent)) = some (1, .doNothing) := by decide +kernel
  obtain ⟨m, hm, hseen⟩ := Option.map_eq_some_iff.mp hview
  obtain ⟨hround, hintent⟩ := Prod.mk.inj hseen
  obtain ⟨-, hruns⟩ := recompute_comes_to_rest.2 { maxIterations := 3 } (0 : Fin 4) 0 0 (by decide)
  obtain ⟨hnever, -, hidle, -⟩ := hruns inputs m (ok_of_toOption hm)
  exact ⟨m, ok_of_toOption hm, hround, hintent, hnever, hidle⟩

/-- Two steps do not suffice for that. -/
example :
    let peer := NodeStatus.mk 0 1 0 .waitBlock none true
    ((start { maxIterations := 2 } (0 : Fin 4) 0 0).run
      [.revolt, .status 1 peer, .status 2 peer]).toOption.map limitHits = some 1 := by
  decide +kernel

end Conclave.Manager

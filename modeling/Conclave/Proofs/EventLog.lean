import Conclave.Proofs.Settling

/-!
# The event log

A status manager tells of every change of its own height, round, phase and intent, and of nothing
that did not happen: whoever replays its events from where it was knows where it is. An input that
is turned down leaves the rejection as its only trace.
-/

namespace Conclave

/-! ### Replaying events -/

/-- What the events of a status manager are about. -/
structure Sketch where
  height : ℕ
  round : ℕ
  phase : Phase
  intent : Intent
deriving DecidableEq

def Event.newHeight? : Event → Option ℕ
  | .heightAdvanced height => some height
  | _ => none

def Event.isRound : Event → Bool
  | .roundAdvanced .. => true
  | _ => false

namespace Sketch

/-- The sketch after one more event. Every height begins with round zero. -/
def after (s : Sketch) : Event → Sketch
  | .intentChanged _ new => { s with intent := new }
  | .phaseChanged _ _ new => { s with phase := new }
  | .roundAdvanced _ round => { s with round }
  | .heightAdvanced height => { s with height, round := 0 }
  | .revoltObserved .. | .rejected _ | .limitReached _ => s

/-- The sketch after all events, the oldest first. -/
def replay (s : Sketch) (events : List Event) : Sketch := events.foldl after s

/-- A change starts from what was there and leads elsewhere; heights and rounds count up. -/
def Admits (s : Sketch) : Event → Prop
  | .intentChanged old new => old = s.intent ∧ old ≠ new
  | .phaseChanged _ old new => old = s.phase ∧ old ≠ new
  | .roundAdvanced height round => height = s.height ∧ round = s.round + 1
  | .heightAdvanced height => height = s.height + 1
  | .revoltObserved .. | .rejected _ | .limitReached _ => True

/-- Every event is admitted in its turn. -/
def Fits (s : Sketch) : List Event → Prop
  | [] => True
  | e :: events => s.Admits e ∧ (s.after e).Fits events

variable {s : Sketch} {events events' : List Event}

lemma replay_append (s : Sketch) (events events' : List Event) :
    s.replay (events ++ events') = (s.replay events).replay events' := List.foldl_append

lemma fits_append :
    s.Fits (events ++ events') ↔ s.Fits events ∧ (s.replay events).Fits events' := by
  induction events generalizing s with
  | nil => simp [Fits, replay]
  | cons e events ih => simp only [List.cons_append, Fits, ih, and_assoc]; rfl

/-- An event in the middle is admitted by what those before it have led to. -/
lemma Fits.admits {before : List Event} {e : Event} {later : List Event}
    (h : s.Fits (before ++ e :: later)) : (s.replay before).Admits e :=
  (fits_append.mp h).2.1

/-- The heights that are told of follow on one another, from the first one to the last. -/
lemma Fits.heights (h : s.Fits events) : s.height ≤ (s.replay events).height ∧
    events.filterMap Event.newHeight? =
      List.range' (s.height + 1) ((s.replay events).height - s.height) := by
  induction events generalizing s with
  | nil => simp [replay]
  | cons e events ih =>
    obtain ⟨hle, hheights⟩ := ih h.2
    have hreplay : s.replay (e :: events) = (s.after e).replay events := rfl
    rw [hreplay]
    cases e with
    | heightAdvanced height =>
      obtain rfl : height = s.height + 1 := h.1
      simp only [after] at hle hheights ⊢
      refine ⟨by omega, ?_⟩
      have hcount : ((⟨s.height + 1, 0, s.phase, s.intent⟩ : Sketch).replay events).height -
          s.height = ((⟨s.height + 1, 0, s.phase, s.intent⟩ : Sketch).replay events).height -
          (s.height + 1) + 1 := by omega
      rw [hcount, List.range'_succ, ← hheights]
      rfl
    | _ => exact ⟨hle, hheights⟩

end Sketch

namespace Manager

variable {n : ℕ} {m x y : Manager n} {height round : ℕ}

def sketch (m : Manager n) : Sketch := ⟨m.own.height, m.own.round, m.own.phase, m.intent⟩

/-! ### What a manager tells of itself -/

/-- The events from `m` to `x` fit, and tell of the phase, the intent and the advances of the round
of `x`, and of `height` and `round`. -/
structure Account (m x : Manager n) (height round : ℕ) (events : List Event) : Prop where
  journal : x.journal = events.reverse ++ m.journal
  fits : m.sketch.Fits events
  replay : m.sketch.replay events = ⟨height, round, x.own.phase, x.intent⟩
  viewChanges : x.viewChanges = m.viewChanges + events.countP Event.isRound

/-- An account without a rejection. In the middle of a change it lags behind the own height and
round. -/
def Recounts (m x : Manager n) (height round : ℕ) : Prop :=
  ∃ events, Account m x height round events ∧ ∀ cause, .rejected cause ∉ events

lemma account_self (m : Manager n) : Account m m m.own.height m.own.round [] :=
  ⟨rfl, trivial, rfl, rfl⟩

lemma recounts_self (m : Manager n) : Recounts m m m.own.height m.own.round :=
  ⟨[], account_self m, by simp⟩

lemma Account.append {events events' : List Event}
    (h : Account m x x.own.height x.own.round events) (h' : Account x y height round events') :
    Account m y height round (events ++ events') where
  journal := by rw [h'.journal, h.journal, List.reverse_append, List.append_assoc]
  fits := Sketch.fits_append.mpr ⟨h.fits, by rw [h.replay]; exact h'.fits⟩
  replay := by
    rw [Sketch.replay_append, h.replay]
    exact h'.replay
  viewChanges := by rw [h'.viewChanges, h.viewChanges, List.countP_append, Nat.add_assoc]

namespace Recounts

lemma exists_account (h : Recounts m x height round) :
    ∃ events, Account m x height round events :=
  h.imp fun _ h => h.1

lemma trans (h : Recounts m x x.own.height x.own.round) (h' : Recounts x y height round) :
    Recounts m y height round := by
  obtain ⟨events, haccount, hno⟩ := h
  obtain ⟨events', haccount', hno'⟩ := h'
  refine ⟨events ++ events', haccount.append haccount', fun cause hin => ?_⟩
  rcases List.mem_append.mp hin with hin | hin
  · exact hno cause hin
  · exact hno' cause hin

/-- One more event. -/
lemma tell (h : Recounts m x height round) {e : Event} {height' round' : ℕ}
    (hjournal : y.journal = e :: x.journal)
    (hadmits : Sketch.Admits ⟨height, round, x.own.phase, x.intent⟩ e)
    (hafter : Sketch.after ⟨height, round, x.own.phase, x.intent⟩ e =
      ⟨height', round', y.own.phase, y.intent⟩)
    (hviews : y.viewChanges = x.viewChanges + if e.isRound then 1 else 0)
    (hno : ∀ cause, e ≠ .rejected cause) : Recounts m y height' round' := by
  obtain ⟨events, haccount, hnone⟩ := h
  refine ⟨events ++ [e], ⟨?_, ?_, ?_, ?_⟩, fun cause hin => ?_⟩
  · simp [hjournal, haccount.journal]
  · rw [Sketch.fits_append, haccount.replay]
    exact ⟨haccount.fits, hadmits, trivial⟩
  · rw [Sketch.replay_append, haccount.replay]
    exact hafter
  · rw [hviews, haccount.viewChanges, List.countP_append, List.countP_singleton, Nat.add_assoc]
  · rcases List.mem_append.mp hin with hin | hin
    · exact hnone cause hin
    · exact hno cause (List.mem_singleton.mp hin).symm

/-- A change that nothing needs to be told of. -/
lemma congr (h : Recounts m x height round) (hjournal : y.journal = x.journal)
    (hphase : y.own.phase = x.own.phase) (hintent : y.intent = x.intent)
    (hviews : y.viewChanges = x.viewChanges) : Recounts m y height round := by
  obtain ⟨events, haccount, hno⟩ := h
  refine ⟨events, ⟨?_, haccount.fits, ?_, ?_⟩, hno⟩
  · rw [hjournal, haccount.journal]
  · rw [haccount.replay, hphase, hintent]
  · rw [hviews, haccount.viewChanges]

lemma modifyOwn (h : Recounts m x height round) {f : NodeStatus → NodeStatus}
    (hf : ∀ s, (f s).phase = s.phase) : Recounts m (x.modifyOwn f) height round :=
  h.congr rfl (by rw [own_modifyOwn, hf]) rfl rfl

lemma clearSignatures (h : Recounts m x height round) :
    Recounts m x.clearSignatures height round := h.congr rfl rfl rfl rfl

lemma collect (h : Recounts m x height round) (i : Fin n) (s : Signature) :
    Recounts m (x.collect i s) height round := h.congr rfl rfl rfl rfl

lemma setIntent (h : Recounts m x height round) (intent : Intent) :
    Recounts m (x.setIntent intent) height round := by
  unfold Manager.setIntent
  split
  · exact h
  · rename_i hne
    exact h.tell (e := .intentChanged x.intent intent) rfl ⟨rfl, hne⟩ rfl rfl (by simp)

lemma setPhase (h : Recounts m x height round) (phase : Phase) :
    Recounts m (x.setPhase phase) height round := by
  unfold Manager.setPhase
  split
  · exact h
  · rename_i hne
    refine h.tell (e := .phaseChanged x.own.height x.own.phase phase) rfl ⟨rfl, hne⟩ ?_ rfl (by simp)
    rw [own_record, own_modifyOwn]
    rfl

lemma dropUnprepared (h : Recounts m x height round) :
    Recounts m x.dropUnprepared height round := by
  unfold Manager.dropUnprepared
  split
  · exact ((h.setPhase .waitBlock).modifyOwn (f := fun s =>
      { s with rid := none, serial := s.serial + 1 }) fun _ => rfl).clearSignatures
  · exact h

lemma advanceRound (h : Recounts m x x.own.height x.own.round) :
    Recounts m x.advanceRound x.own.height (x.own.round + 1) := by
  have hdrop : (dropped x.own).height = x.own.height ∧ (dropped x.own).round = x.own.round :=
    ⟨dropped_height _, dropped_round _⟩
  have hown : x.dropUnprepared.own = dropped x.own := (becomes_dropUnprepared x).own_eq
  have hlag := h.dropUnprepared.modifyOwn (f := fun s =>
    { s with revolting := false, round := s.round + 1, serial := s.serial + 1 }) fun _ => rfl
  refine hlag.tell (e := .roundAdvanced x.own.height (x.own.round + 1)) ?_ ⟨rfl, rfl⟩ rfl rfl
    (by simp)
  simp only [Manager.advanceRound, Manager.record, own_modifyOwn, hown, hdrop]

lemma prepare (h : Recounts m x height round) : Recounts m x.prepare height round :=
  (h.setPhase .prepared).modifyOwn fun _ => rfl

lemma climb (h : Recounts m x x.own.height x.own.round) :
    Recounts m x.climb (x.own.height + 1) 0 := by
  have hlag := (((h.modifyOwn (f := fun s =>
    { s with height := s.height + 1, serial := s.serial + 1, rid := none, round := 0,
             revolting := false }) fun _ => rfl).setPhase .waitBlock).clearSignatures).setIntent
    .doNothing
  refine hlag.tell (e := .heightAdvanced (x.own.height + 1)) ?_ rfl rfl rfl (by simp)
  simp [Manager.climb, Manager.record]

lemma take (h : Recounts m x height round) (rid : Rid) (signature : Signature) :
    Recounts m (x.take rid signature) height round := by
  have htaken := (h.clearSignatures.modifyOwn (f := fun s =>
    { s with rid := some rid, serial := s.serial + 1 }) fun _ => rfl).setPhase .haveBlock
  exact (htaken.collect _ signature).setIntent .doNothing

lemma hear (h : Recounts m x height round) {i : Fin n} (hi : i ≠ x.me) (s : NodeStatus) :
    Recounts m (x.hear i s) height round := by
  have hphase : (x.hear i s).own.phase = x.own.phase := by rw [hear_own hi]
  have hintent := hear_intent x i s
  revert hphase hintent
  unfold Manager.hear noteRevolt
  split
  · exact fun hphase hintent => h.congr rfl hphase hintent rfl
  · intro hphase hintent
    exact h.tell rfl trivial (by rw [hphase, hintent]; rfl) rfl (by simp)

end Recounts

/-! ### Moves -/

lemma recounts_of_step (h : x.step = some y) : Recounts x y y.own.height y.own.round := by
  have hself := recounts_self x
  cases makes_of_step h with
  | setIntent intent => simpa using hself.setIntent intent
  | catchUp =>
    simpa [(becomes_dropUnprepared x).own_eq] using
      hself.dropUnprepared.setIntent (.fetchBlockAtHeight x.own.height)
  | advanceRound => simpa [(becomes_advanceRound x).own_eq] using hself.advanceRound
  | prepare => simpa [(becomes_prepare x).own_eq] using hself.prepare

lemma recounts_cutOff (m : Manager n) : Recounts m m.cutOff m.own.height m.own.round :=
  (recounts_self m).tell rfl trivial rfl rfl (by simp)

lemma recounts_setTime (m : Manager n) (now : Duration) :
    Recounts m (m.setTime now) m.own.height m.own.round :=
  (recounts_self m).congr rfl rfl rfl rfl

lemma recounts_hear {i : Fin n} (hi : i ≠ m.me) (s : NodeStatus) :
    Recounts m (m.hear i s) (m.hear i s).own.height (m.hear i s).own.round := by
  rw [hear_own hi]
  exact (recounts_self m).hear hi s

lemma recounts_climb (m : Manager n) :
    Recounts m m.climb m.climb.own.height m.climb.own.round := by
  simpa [(becomes_climb m).own_eq] using (recounts_self m).climb

lemma recounts_take (m : Manager n) (rid : Rid) (signature : Signature) :
    Recounts m (m.take rid signature) (m.take rid signature).own.height
      (m.take rid signature).own.round := by
  rw [(becomes_take m rid signature).own_eq]
  exact (recounts_self m).take rid signature

lemma recounts_collect (m : Manager n) (i : Fin n) (signature : Signature) :
    Recounts m (m.collect i signature) m.own.height m.own.round :=
  (recounts_self m).collect i signature

lemma recounts_rebel (m : Manager n) :
    Recounts m m.rebel m.rebel.own.height m.rebel.own.round := by
  rw [(becomes_rebel m).own_eq]
  exact (recounts_self m).modifyOwn fun _ => rfl

/-- The only trace of an input that is turned down. -/
lemma account_reject (m : Manager n) (cause : Rejection) :
    Account m (m.reject cause) (m.reject cause).own.height (m.reject cause).own.round
      [.rejected cause] :=
  ⟨rfl, ⟨trivial, trivial⟩, rfl, rfl⟩

lemma Move.exists_account {input : Input} (h : Move input x y) :
    ∃ events, Account x y y.own.height y.own.round events := by
  cases h with
  | reject cause => exact ⟨_, account_reject x cause⟩
  | rest => exact (recounts_self x).exists_account
  | step h => exact (recounts_of_step h).exists_account
  | cutOff => exact (recounts_cutOff x).exists_account
  | setTime now => exact (recounts_setTime x now).exists_account
  | hear i s told peer fresher => exact (recounts_hear peer s).exists_account
  | climb => exact (recounts_climb x).exists_account
  | take rid signature => exact (recounts_take x rid signature).exists_account
  | collect i rid signature => exact (recounts_collect x i signature).exists_account
  | rebel => exact (recounts_rebel x).exists_account

/-- All that happens in a run is told of. -/
lemma exists_account_of_mem_trail {inputs : List Input} :
    ∀ x ∈ m.trail inputs, ∃ events, Account m x x.own.height x.own.round events := by
  refine trail_invariant ⟨[], account_self m⟩ ?_ inputs
  rintro input x y hmove ⟨events, haccount⟩
  obtain ⟨new, hnew⟩ := hmove.exists_account
  exact ⟨events ++ new, haccount.append hnew⟩

/-! ### One input -/

lemma recounts_settle (limit : ℕ) (m : Manager n) :
    Recounts m (settle limit m) (settle limit m).own.height (settle limit m).own.round := by
  induction limit generalizing m with
  | zero => exact recounts_cutOff m
  | succ limit ih =>
    unfold settle
    cases h : m.step with
    | none => exact recounts_self m
    | some x => exact (recounts_of_step h).trans (ih x)

lemma recounts_advance (heights : ℕ) (m : Manager n) :
    Recounts m (advance heights m) (advance heights m).own.height
      (advance heights m).own.round := by
  induction heights generalizing m with
  | zero => exact recounts_self m
  | succ heights ih =>
    exact ((recounts_climb m).trans (recounts_settle _ _)).trans (ih m.advanceHeight)

lemma Opens.recounts {input : Input} (h : m.Opens input x) :
    Recounts m x x.own.height x.own.round := by
  cases h with
  | hear i s peer fresher => exact recounts_hear peer s
  | heightAdvance => exact recounts_climb m
  | committed => exact recounts_climb m
  | received rid signature => exact recounts_take m rid signature
  | built rid signature => exact recounts_take m rid signature
  | collect i rid signature => exact recounts_collect m i signature
  | rebel => exact recounts_rebel m
  | look => exact recounts_self m

/-- An input is applied without a rejection; or it is turned down, or old news, and leaves nothing
else behind. -/
lemma respond_recounts (m : Manager n) (input : Input) :
    ((m.respond input).2 = true ∧ Recounts m (m.respond input).1 (m.respond input).1.own.height
        (m.respond input).1.own.round) ∨
      (∃ cause, m.respond input = (m.reject cause, false)) ∨
      ((∃ (i : Fin n) (s : NodeStatus), input = .status i s ∧ s.fresher (m.statuses.get i) = false) ∧
        m.respond input = (m, false)) := by
  cases ho : m.opening input with
  | some x =>
    rw [(respond_opening ho).2]
    exact .inl ⟨rfl, (opens_of_opening ho).recounts.trans (recounts_settle _ x)⟩
  | none =>
    by_cases hf : ∃ committed, input = .fastForward committed
    · obtain ⟨committed, rfl⟩ := hf
      simp only [respond, fastForward]
      split
      · exact .inr (.inl ⟨_, rfl⟩)
      · exact .inl ⟨rfl, recounts_advance _ m⟩
    · rcases respond_unopened ho fun c hc => hf ⟨c, hc⟩ with hstale | hrejected | ⟨now, rfl⟩
      · exact .inr (.inr hstale)
      · exact .inr (.inl hrejected)
      · exact .inl ⟨rfl, recounts_setTime m now⟩

/-! ### Runs -/

/-- At every moment of a run, whatever state it begins in, and so after every input: the events
since its beginning, replayed from the own height, round, phase and intent there, lead to those of
the moment. Every change that is told of starts from what there was and leads elsewhere, the heights
that are told of are all those from the first to the last, and the rounds are as many as were
counted. An input that is applied tells of no rejection; one that is not tells of its rejection and
does nothing else, or it is a status that is no news and tells of nothing. -/
theorem journal_tells_all (m : Manager n) (inputs : List Input) :
    ∀ x ∈ m.trail inputs,
      (∃ events : List Event, x.journal = events.reverse ++ m.journal ∧
        m.sketch.replay events = x.sketch ∧
        (∀ before old new later, events = before ++ .intentChanged old new :: later →
          old = (m.sketch.replay before).intent ∧ old ≠ new) ∧
        (∀ before height old new later, events = before ++ .phaseChanged height old new :: later →
          old = (m.sketch.replay before).phase ∧ old ≠ new) ∧
        events.filterMap Event.newHeight? =
          List.range' (m.own.height + 1) (x.own.height - m.own.height) ∧
        x.viewChanges = m.viewChanges + events.countP Event.isRound) ∧
      ∀ input,
        ((x.respond input).2 = true → ∃ events,
          (x.respond input).1.journal = events ++ x.journal ∧ ∀ cause, .rejected cause ∉ events) ∧
        ((x.respond input).2 = false →
          (∃ cause, (x.respond input).1 = { x with journal := .rejected cause :: x.journal }) ∨
          ((∃ (i : Fin n) (s : NodeStatus),
            input = .status i s ∧ s.fresher (x.statuses.get i) = false) ∧
              (x.respond input).1 = x)) := by
  intro x hx
  obtain ⟨events, haccount⟩ := exists_account_of_mem_trail x hx
  have hreplay : m.sketch.replay events = x.sketch := haccount.replay
  refine ⟨⟨events, haccount.journal, hreplay, ?intents, ?phases, ?heights, haccount.viewChanges⟩,
    fun input => ⟨fun happlied => ?applied, fun hunapplied => ?unapplied⟩⟩
  case intents =>
    rintro before old new later rfl
    exact haccount.fits.admits
  case phases =>
    rintro before height old new later rfl
    exact haccount.fits.admits
  case heights =>
    have hheights := haccount.fits.heights.2
    rw [hreplay] at hheights
    exact hheights
  case applied =>
    rcases respond_recounts x input with ⟨-, new, hnew, hno⟩ | ⟨cause, he⟩ | ⟨-, he⟩
    · exact ⟨new.reverse, hnew.journal, fun cause hin => hno cause (List.mem_reverse.mp hin)⟩
    · simp [he] at happlied
    · simp [he] at happlied
  case unapplied =>
    rcases respond_recounts x input with ⟨htrue, -⟩ | ⟨cause, he⟩ | ⟨hstale, he⟩
    · simp [htrue] at hunapplied
    · exact .inl ⟨cause, by rw [he]; rfl⟩
    · exact .inr ⟨hstale, by rw [he]⟩

/-- A block is built, dropped in a change of rounds, and left behind with its height; its commit
comes too late. -/
theorem journal_tells_all_dropping :
    let peer := NodeStatus.mk 0 1 0 .waitBlock none true
    let inputs : List Input := [.built .zero default, .status 1 peer, .status 2 peer, .revolt,
      .heightAdvance 1, .committed .zero]
    let m := start {} (0 : Fin 4) 0 0
    ∃ x ∈ m.trail inputs, x.journal.head? = some (.rejected (.wrongCommittedBlock .zero)) ∧
      ∃ events : List Event, x.journal = events.reverse ++ m.journal ∧
        m.sketch.replay events = ⟨1, 0, .waitBlock, .doNothing⟩ ∧
        events.filterMap Event.newHeight? = [1] ∧ events.countP Event.isRound = 1 := by
  intro peer inputs m
  have hview : (m.run inputs).toOption.map (fun x => (x.sketch, x.viewChanges, x.journal.head?)) =
      some (⟨1, 0, .waitBlock, .doNothing⟩, 1, some (.rejected (.wrongCommittedBlock .zero))) := by
    decide +kernel
  have hstart : m.sketch.height = 0 ∧ m.viewChanges = 0 := by decide +kernel
  obtain ⟨x, hx, hseen⟩ := Option.map_eq_some_iff.mp hview
  simp only [Prod.mk.injEq] at hseen
  obtain ⟨hsketch, hviews, hlast⟩ := hseen
  have hmem : x ∈ m.trail inputs := List.mem_of_getLast? (getLast?_trail (ok_of_toOption hx))
  obtain ⟨⟨events, hjournal, hreplay, -, -, hheights, hrounds⟩, -⟩ :=
    journal_tells_all m inputs x hmem
  refine ⟨x, hmem, hlast, events, hjournal, hreplay.trans hsketch, ?_, by omega⟩
  have hheight : x.own.height = 1 := congrArg Sketch.height hsketch
  have hlow : m.own.height = 0 := hstart.1
  rw [hheights, hheight, hlow]
  rfl

end Manager

end Conclave

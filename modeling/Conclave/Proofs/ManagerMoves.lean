import Conclave.Manager.Input
import Mathlib.Data.List.Chain
import Mathlib.Tactic.Lemma

/-!
# Moves of a status manager

An input changes a status manager once and then lets it settle step by step. This file names the
changes, says for each what becomes of the own status, the signatures and the intent, and lists the
moments that a manager passes through within one input. What every single move preserves holds at
every moment.
-/

namespace Conclave.Manager

variable {n : ℕ} {m m' x y : Manager n}

/-! ### What a change does to the own part of a manager -/

/-- Stores a commit signature. -/
def collect (m : Manager n) (i : Fin n) (signature : Signature) : Manager n :=
  { m with signatures := m.signatures.put i (some signature) }

/-- `m'` differs from `m` at most in its own status, its signatures, its intent and its books; the
records of the peers are the same. -/
structure Becomes (m m' : Manager n) (own : NodeStatus) (signatures : Table n (Option Signature))
    (intent : Intent) : Prop where
  me : m'.me = m.me
  config : m'.config = m.config
  statuses : m'.statuses = m.statuses.put m.me own
  signatures : m'.signatures = signatures
  intent : m'.intent = intent

lemma becomes_self (m : Manager n) : m.Becomes m m.own m.signatures m.intent :=
  ⟨rfl, rfl, (Table.put_get _ _).symm, rfl, rfl⟩

namespace Becomes

variable {own : NodeStatus} {sigs : Table n (Option Signature)} {intent : Intent}

lemma own_eq (h : m.Becomes x own sigs intent) : x.own = own := by
  rw [Manager.own, h.me, h.statuses, Table.get_put_self]

lemma peer (h : m.Becomes x own sigs intent) {j : Fin n} (hj : j ≠ m.me) :
    x.statuses.get j = m.statuses.get j := by
  rw [h.statuses, Table.get_put_of_ne _ _ hj.symm]

lemma record (h : m.Becomes x own sigs intent) (e : Event) :
    m.Becomes (x.record e) own sigs intent :=
  ⟨h.me, h.config, h.statuses, h.signatures, h.intent⟩

lemma modifyOwn (h : m.Becomes x own sigs intent) (f : NodeStatus → NodeStatus) :
    m.Becomes (x.modifyOwn f) (f own) sigs intent where
  me := h.me
  config := h.config
  statuses := by
    change x.statuses.put x.me (f x.own) = _
    rw [h.own_eq, h.me, h.statuses, Table.put_put]
  signatures := h.signatures
  intent := h.intent

lemma clearSignatures (h : m.Becomes x own sigs intent) :
    m.Becomes x.clearSignatures own (Vector.replicate n none) intent :=
  ⟨h.me, h.config, h.statuses, rfl, h.intent⟩

lemma collect (h : m.Becomes x own sigs intent) (i : Fin n) (s : Signature) :
    m.Becomes (x.collect i s) own (sigs.put i (some s)) intent :=
  ⟨h.me, h.config, h.statuses, congrArg (Table.put · i (some s)) h.signatures, h.intent⟩

lemma setIntent (h : m.Becomes x own sigs intent) (intent' : Intent) :
    m.Becomes (x.setIntent intent') own sigs intent' := by
  by_cases he : x.intent = intent'
  · rw [Manager.setIntent, if_pos he]
    exact ⟨h.me, h.config, h.statuses, h.signatures, he⟩
  · rw [Manager.setIntent, if_neg he]
    exact ⟨h.me, h.config, h.statuses, h.signatures, rfl⟩

lemma setPhase (h : m.Becomes x own sigs intent) (phase : Phase) :
    m.Becomes (x.setPhase phase) { own with phase } sigs intent := by
  by_cases he : x.own.phase = phase
  · rw [Manager.setPhase, if_pos he]
    rw [h.own_eq] at he
    subst he
    exact h
  · rw [Manager.setPhase, if_neg he]
    exact (h.modifyOwn ({ · with phase })).record _

lemma resetBlock (h : m.Becomes x own sigs intent) :
    m.Becomes x.resetBlock { own with phase := .waitBlock, rid := none, serial := own.serial + 1 }
      (Vector.replicate n none) intent :=
  ((h.setPhase .waitBlock).modifyOwn
    fun s => { s with rid := none, serial := s.serial + 1 }).clearSignatures

end Becomes

/-! ### The changes that inputs make -/

/-- Takes note that a recompute was cut off. -/
def cutOff (m : Manager n) : Manager n :=
  { m.record (.limitReached m.config.maxIterations) with limitHits := m.limitHits + 1 }

/-- Stores the status of a peer. -/
def hear (m : Manager n) (i : Fin n) (s : NodeStatus) : Manager n :=
  let m := { m with heardAt := m.heardAt.put i (some m.now) }.noteRevolt i s
  { m with statuses := m.statuses.put i s }

/-- Leaves the own height behind. -/
def climb (m : Manager n) : Manager n :=
  let m := m.modifyOwn fun s =>
    { s with height := s.height + 1, serial := s.serial + 1, rid := none, round := 0,
             revolting := false }
  ((m.setPhase .waitBlock).clearSignatures.setIntent .doNothing).record
    (.heightAdvanced m.own.height)

/-- Takes a block in hand. -/
def take (m : Manager n) (rid : Rid) (signature : Signature) : Manager n :=
  let m := (m.clearSignatures.modifyOwn fun s =>
    { s with rid := some rid, serial := s.serial + 1 }).setPhase .haveBlock
  (m.collect m.me signature).setIntent .doNothing

/-- Gives up on the primary. -/
def rebel (m : Manager n) : Manager n :=
  m.modifyOwn fun s => { s with revolting := true, serial := s.serial + 1 }

/-- The own status once a block that is not prepared is dropped. -/
def dropped (s : NodeStatus) : NodeStatus :=
  if s.phase = .haveBlock then
    { s with phase := .waitBlock, rid := none, serial := s.serial + 1 }
  else s

/-- The signatures that are left then. -/
def keptSignatures (m : Manager n) : Table n (Option Signature) :=
  if m.own.phase = .haveBlock then Vector.replicate n none else m.signatures

lemma becomes_cutOff (m : Manager n) : m.Becomes m.cutOff m.own m.signatures m.intent :=
  ⟨rfl, rfl, (Table.put_get _ _).symm, rfl, rfl⟩

lemma becomes_climb (m : Manager n) :
    m.Becomes m.climb
      { m.own with height := m.own.height + 1, serial := m.own.serial + 1, rid := none, round := 0,
                   revolting := false, phase := .waitBlock }
      (Vector.replicate n none) .doNothing :=
  ((((m.becomes_self.modifyOwn fun s =>
    { s with height := s.height + 1, serial := s.serial + 1, rid := none, round := 0,
             revolting := false }).setPhase .waitBlock).clearSignatures).setIntent _).record _

lemma becomes_take (m : Manager n) (rid : Rid) (signature : Signature) :
    m.Becomes (m.take rid signature)
      { m.own with rid := some rid, serial := m.own.serial + 1, phase := .haveBlock }
      (Table.put (Vector.replicate n none) m.me (some signature)) .doNothing := by
  have h := (m.becomes_self.clearSignatures.modifyOwn fun s =>
    { s with rid := some rid, serial := s.serial + 1 }).setPhase .haveBlock
  rw [← h.me]
  exact (h.collect _ signature).setIntent .doNothing

lemma becomes_collect (m : Manager n) (i : Fin n) (signature : Signature) :
    m.Becomes (m.collect i signature) m.own (m.signatures.put i (some signature)) m.intent :=
  m.becomes_self.collect i signature

lemma becomes_rebel (m : Manager n) :
    m.Becomes m.rebel { m.own with revolting := true, serial := m.own.serial + 1 } m.signatures
      m.intent :=
  m.becomes_self.modifyOwn fun s => { s with revolting := true, serial := s.serial + 1 }

lemma becomes_dropUnprepared (m : Manager n) :
    m.Becomes m.dropUnprepared (dropped m.own) m.keptSignatures m.intent := by
  by_cases h : m.own.phase = .haveBlock
  · simp only [dropUnprepared, dropped, keptSignatures, h, if_true]
    exact m.becomes_self.resetBlock
  · simp only [dropUnprepared, dropped, keptSignatures, h, if_false]
    exact m.becomes_self

lemma becomes_advanceRound (m : Manager n) :
    m.Becomes m.advanceRound
      { dropped m.own with revolting := false, round := (dropped m.own).round + 1,
                           serial := (dropped m.own).serial + 1 }
      m.keptSignatures m.intent := by
  have h := m.becomes_dropUnprepared.modifyOwn
    fun s => { s with revolting := false, round := s.round + 1, serial := s.serial + 1 }
  exact ⟨h.me, h.config, h.statuses, h.signatures, h.intent⟩

lemma becomes_prepare (m : Manager n) :
    m.Becomes m.prepare { m.own with phase := .prepared, serial := m.own.serial + 1 } m.signatures
      m.intent :=
  (m.becomes_self.setPhase .prepared).modifyOwn fun s => { s with serial := s.serial + 1 }

section Hear

variable (m : Manager n) (i : Fin n) (s : NodeStatus)

@[simp] lemma noteRevolt_me : (m.noteRevolt i s).me = m.me := by
  unfold noteRevolt
  split <;> rfl

@[simp] lemma noteRevolt_config : (m.noteRevolt i s).config = m.config := by
  unfold noteRevolt
  split <;> rfl

@[simp] lemma noteRevolt_statuses : (m.noteRevolt i s).statuses = m.statuses := by
  unfold noteRevolt
  split <;> rfl

@[simp] lemma noteRevolt_signatures : (m.noteRevolt i s).signatures = m.signatures := by
  unfold noteRevolt
  split <;> rfl

@[simp] lemma noteRevolt_intent : (m.noteRevolt i s).intent = m.intent := by
  unfold noteRevolt
  split <;> rfl

@[simp] lemma hear_me : (m.hear i s).me = m.me := by simp [hear]

@[simp] lemma hear_config : (m.hear i s).config = m.config := by simp [hear]

@[simp] lemma hear_statuses : (m.hear i s).statuses = m.statuses.put i s := by simp [hear]

@[simp] lemma hear_signatures : (m.hear i s).signatures = m.signatures := by simp [hear]

@[simp] lemma hear_intent : (m.hear i s).intent = m.intent := by simp [hear]

variable {m i s}

lemma hear_own (hi : i ≠ m.me) : (m.hear i s).own = m.own := by
  rw [own, hear_me, hear_statuses, Table.get_put_of_ne _ _ hi, own]

end Hear

/-! ### One step of a recompute -/

/-- What a step does, by what it goes for: catching up comes before the next round, and that before
the block at hand. -/
inductive Stride (m m' : Manager n) : Prop
  | catchUp (unprepared : m.own.phase ≠ .prepared) (behind : m.behind = true)
      (news : m.intent ≠ .fetchBlockAtHeight m.own.height)
      (becomes : m.Becomes m' (dropped m.own) m.keptSignatures
        (.fetchBlockAtHeight m.own.height))
  | nextRound (upToDate : ¬(m.own.phase ≠ .prepared ∧ m.behind = true))
      (revolting : m.own.revolting = true) (votes : quorum n ≤ m.revoltVotes)
      (becomes : m.Becomes m'
        { dropped m.own with revolting := false, round := (dropped m.own).round + 1,
                             serial := (dropped m.own).serial + 1 }
        m.keptSignatures m.intent)
  | await (upToDate : m.behind = false) (calm : ¬(m.own.revolting = true ∧ quorum n ≤ m.revoltVotes))
      (phase : m.own.phase = .waitBlock) (news : m.intent ≠ m.waitingIntent)
      (becomes : m.Becomes m' m.own m.signatures m.waitingIntent)
  | prepare (upToDate : m.behind = false)
      (calm : ¬(m.own.revolting = true ∧ quorum n ≤ m.revoltVotes))
      (phase : m.own.phase = .haveBlock) (held : quorum n ≤ m.holders)
      (becomes : m.Becomes m' { m.own with phase := .prepared, serial := m.own.serial + 1 }
        m.signatures m.intent)
  | commit (calm : ¬(m.own.revolting = true ∧ quorum n ≤ m.revoltVotes))
      (phase : m.own.phase = .prepared) (news : m.intent ≠ .commitBlock)
      (signed : quorum n ≤ m.signed)
      (becomes : m.Becomes m' m.own m.signatures .commitBlock)
  | gather (calm : ¬(m.own.revolting = true ∧ quorum n ≤ m.revoltVotes))
      (phase : m.own.phase = .prepared) (uncommitted : m.intent ≠ .commitBlock)
      (unsigned : m.signed < quorum n) (rid : Rid) (held : m.own.rid = some rid)
      (news : m.intent ≠ m.preparedIntent rid)
      (becomes : m.Becomes m' m.own m.signatures (m.preparedIntent rid))

lemma follow_eq_some {intent : Intent} (h : m.follow intent = some m') :
    m.intent ≠ intent ∧ m.Becomes m' m.own m.signatures intent := by
  unfold follow at h
  split at h
  · cases h
  · rename_i hne
    cases h
    exact ⟨hne, m.becomes_self.setIntent intent⟩

theorem stride_of_step (h : m.step = some m') : m.Stride m' := by
  unfold step at h
  split at h
  · rename_i hb
    split at h
    · cases h
    · rename_i hf
      cases h
      refine .catchUp hb.1 hb.2 (by simpa [Intent.isFetchingHeight] using hf) ?_
      exact m.becomes_dropUnprepared.setIntent _
  rename_i hb
  split at h
  · rename_i hr
    cases h
    exact .nextRound hb hr.1 hr.2 m.becomes_advanceRound
  rename_i hr
  cases hp : m.own.phase with
  | waitBlock =>
    have hnb : m.behind = false := by simpa [hp] using hb
    rw [hp] at h
    obtain ⟨hne, hbec⟩ := follow_eq_some h
    exact .await hnb hr hp hne hbec
  | haveBlock =>
    have hnb : m.behind = false := by simpa [hp] using hb
    simp only [hp] at h
    split at h
    · cases h
    · rename_i hh
      cases h
      exact .prepare hnb hr hp (by omega) m.becomes_prepare
  | prepared =>
    simp only [hp] at h
    split at h
    · cases h
    rename_i hc
    split at h
    · rename_i hs
      cases h
      exact .commit hr hp hc hs (m.becomes_self.setIntent _)
    · rename_i hs
      obtain ⟨rid, hrid, hf⟩ := Option.bind_eq_some_iff.mp h
      obtain ⟨hne, hbec⟩ := follow_eq_some hf
      exact .gather hr hp hc (by omega) rid hrid hne hbec

/-- The functions that make the change of a step. -/
inductive Makes (m : Manager n) : Manager n → Prop
  | setIntent (intent : Intent) : Makes m (m.setIntent intent)
  | catchUp : Makes m (m.dropUnprepared.setIntent (.fetchBlockAtHeight m.own.height))
  | advanceRound (revolting : m.own.revolting = true) (votes : quorum n ≤ m.revoltVotes) :
      Makes m m.advanceRound
  | prepare : Makes m m.prepare

lemma makes_of_follow {intent : Intent} (h : m.follow intent = some m') : m.Makes m' := by
  unfold follow at h
  split at h
  · cases h
  · cases h
    exact .setIntent intent

theorem makes_of_step (h : m.step = some m') : m.Makes m' := by
  unfold step at h
  split at h
  · split at h
    · cases h
    · cases h
      exact .catchUp
  split at h
  · rename_i hr
    cases h
    exact .advanceRound hr.1 hr.2
  split at h
  · exact makes_of_follow h
  · split at h
    · cases h
    · cases h
      exact .prepare
  · split at h
    · cases h
    split at h
    · cases h
      exact .setIntent .commitBlock
    · obtain ⟨rid, -, hf⟩ := Option.bind_eq_some_iff.mp h
      exact makes_of_follow hf

/-! ### Moves -/

/-- Whether an input can take a manager to the next height. -/
def Input.climbs : Input → Bool
  | .fastForward _ | .heightAdvance _ | .committed _ => true
  | _ => false

/-- What can happen to a manager from one moment to the next while it responds to an input. -/
inductive Move (input : Input) : Manager n → Manager n → Prop
  | rest (m : Manager n) : Move input m m
  | step {m m' : Manager n} (h : m.step = some m') : Move input m m'
  | cutOff (m : Manager n) : Move input m m.cutOff
  | reject (m : Manager n) (cause : Rejection) : Move input m (m.reject cause)
  | setTime (m : Manager n) (now : Duration) : Move input m (m.setTime now)
  | hear (m : Manager n) (i : Fin n) (s : NodeStatus) (told : input = .status i s) (peer : i ≠ m.me)
      (fresher : s.fresher (m.statuses.get i) = true) : Move input m (m.hear i s)
  | climb (m : Manager n) (told : input.climbs = true) : Move input m m.climb
  | take (m : Manager n) (rid : Rid) (signature : Signature)
      (wanted : (input = .received rid signature ∧ m.intent = .fetchUnfinishedBlock rid) ∨
        (input = .built rid signature ∧ m.intent = .buildBlock ∧ m.isPrimary = true)) :
      Move input m (m.take rid signature)
  | collect (m : Manager n) (i : Fin n) (rid : Rid) (signature : Signature)
      (told : input = .commitSignature i rid signature) (phase : m.own.phase = .prepared)
      (held : m.own.rid = some rid) : Move input m (m.collect i signature)
  | rebel (m : Manager n) (told : input = .revolt) : Move input m m.rebel

lemma fixed_of_step (h : m.step = some m') : m'.me = m.me ∧ m'.config = m.config := by
  cases stride_of_step h with
  | catchUp _ _ _ becomes => exact ⟨becomes.me, becomes.config⟩
  | nextRound _ _ _ becomes => exact ⟨becomes.me, becomes.config⟩
  | await _ _ _ _ becomes => exact ⟨becomes.me, becomes.config⟩
  | prepare _ _ _ _ becomes => exact ⟨becomes.me, becomes.config⟩
  | commit _ _ _ _ becomes => exact ⟨becomes.me, becomes.config⟩
  | gather _ _ _ _ _ _ _ becomes => exact ⟨becomes.me, becomes.config⟩

lemma Move.fixed {input : Input} (h : Move input x y) : y.me = x.me ∧ y.config = x.config := by
  cases h with
  | rest => exact ⟨rfl, rfl⟩
  | step h => exact fixed_of_step h
  | cutOff => exact ⟨rfl, rfl⟩
  | reject => exact ⟨rfl, rfl⟩
  | setTime => exact ⟨rfl, rfl⟩
  | hear i s => exact ⟨hear_me x i s, hear_config x i s⟩
  | climb => exact ⟨(becomes_climb x).me, (becomes_climb x).config⟩
  | take rid signature =>
    have h := becomes_take x rid signature
    exact ⟨h.me, h.config⟩
  | collect i rid signature =>
    exact ⟨(becomes_collect x i signature).me, (becomes_collect x i signature).config⟩
  | rebel => exact ⟨(becomes_rebel x).me, (becomes_rebel x).config⟩

/-- The change that an applied input makes before the recompute. Catching up may take several, and
setting the time needs none. -/
def opening (m : Manager n) : Input → Option (Manager n)
  | .status node s =>
    if h : node < n then
      if (⟨node, h⟩ : Fin n) ≠ m.me ∧ s.fresher (m.statuses.get ⟨node, h⟩) then
        some (m.hear ⟨node, h⟩ s)
      else none
    else none
  | .heightAdvance height =>
    if height = Word.saturate (m.own.height + 1) then some m.climb else none
  | .committed rid => if m.own.rid = some rid then some m.climb else none
  | .received rid signature =>
    if m.intent = .fetchUnfinishedBlock rid then some (m.take rid signature) else none
  | .built rid signature =>
    if m.intent = .buildBlock ∧ m.isPrimary then some (m.take rid signature) else none
  | .commitSignature node rid signature =>
    if h : node < n then
      if m.own.phase = .prepared ∧ m.own.rid = some rid then
        some (m.collect ⟨node, h⟩ signature)
      else none
    else none
  | .revolt => some m.rebel
  | .recompute => some m
  | .fastForward _ | .time _ => none

/-- The openings of the inputs, each with what it takes for the input to be applied. -/
inductive Opens (m : Manager n) : Input → Manager n → Prop
  | hear (i : Fin n) (s : NodeStatus) (peer : i ≠ m.me)
      (fresher : s.fresher (m.statuses.get i) = true) : Opens m (.status i s) (m.hear i s)
  | heightAdvance (height : ℕ) (next : height = Word.saturate (m.own.height + 1)) :
      Opens m (.heightAdvance height) m.climb
  | committed (rid : Rid) (held : m.own.rid = some rid) : Opens m (.committed rid) m.climb
  | received (rid : Rid) (signature : Signature) (wanted : m.intent = .fetchUnfinishedBlock rid) :
      Opens m (.received rid signature) (m.take rid signature)
  | built (rid : Rid) (signature : Signature) (wanted : m.intent = .buildBlock)
      (primary : m.isPrimary = true) : Opens m (.built rid signature) (m.take rid signature)
  | collect (i : Fin n) (rid : Rid) (signature : Signature) (phase : m.own.phase = .prepared)
      (held : m.own.rid = some rid) :
      Opens m (.commitSignature i rid signature) (m.collect i signature)
  | rebel : Opens m .revolt m.rebel
  | look : Opens m .recompute m

theorem opens_of_opening {input : Input} (h : m.opening input = some x) : m.Opens input x := by
  cases input with
  | status node s =>
    simp only [opening, Option.dite_none_right_eq_some, Option.ite_none_right_eq_some] at h
    obtain ⟨hn, ⟨hi, hs⟩, he⟩ := h
    cases he
    exact .hear ⟨node, hn⟩ s hi hs
  | heightAdvance height =>
    simp only [opening, Option.ite_none_right_eq_some] at h
    cases h.2
    exact .heightAdvance height h.1
  | committed rid =>
    simp only [opening, Option.ite_none_right_eq_some] at h
    cases h.2
    exact .committed rid h.1
  | received rid signature =>
    simp only [opening, Option.ite_none_right_eq_some] at h
    cases h.2
    exact .received rid signature h.1
  | built rid signature =>
    simp only [opening, Option.ite_none_right_eq_some] at h
    cases h.2
    exact .built rid signature h.1.1 h.1.2
  | commitSignature node rid signature =>
    simp only [opening, Option.dite_none_right_eq_some, Option.ite_none_right_eq_some] at h
    obtain ⟨hn, hp, he⟩ := h
    cases he
    exact .collect ⟨node, hn⟩ rid signature hp.1 hp.2
  | revolt =>
    cases h
    exact .rebel
  | recompute =>
    cases h
    exact .look
  | fastForward _ => cases h
  | time _ => cases h

lemma respond_opening {input : Input} (h : m.opening input = some x) :
    Move input m x ∧ m.respond input = (x.recompute, true) := by
  cases opens_of_opening h with
  | hear i s peer fresher =>
    refine ⟨.hear m i s rfl peer fresher, ?_⟩
    simp only [respond, onStatus, i.isLt, dite_true, Fin.eta, peer, if_false, fresher, if_true]
    rfl
  | heightAdvance height next =>
    refine ⟨.climb m rfl, ?_⟩
    simp only [respond, onHeightAdvance, next, if_true]
    rfl
  | committed rid held =>
    refine ⟨.climb m rfl, ?_⟩
    simp only [respond, onCommitted, held, if_true]
    rfl
  | received rid signature wanted =>
    refine ⟨.take m rid signature (.inl ⟨rfl, wanted⟩), ?_⟩
    simp only [respond, onReceived, Intent.isWaitingFor, wanted, decide_true, if_true]
    rfl
  | built rid signature wanted primary =>
    refine ⟨.take m rid signature (.inr ⟨rfl, wanted, primary⟩), ?_⟩
    simp only [respond, onBuilt, wanted, primary, ne_eq, not_true, if_false, if_true]
    rfl
  | collect i rid signature phase held =>
    refine ⟨.collect m i rid signature rfl phase held, ?_⟩
    simp only [respond, onCommitSignature, i.isLt, dite_true, phase, held, and_self, if_true]
    rfl
  | rebel => exact ⟨.rebel m rfl, rfl⟩
  | look => exact ⟨.rest m, rfl⟩

/-- An input without an opening is old news, or is turned down, unless it catches up or sets the
time. -/
lemma respond_unopened {input : Input} (h : m.opening input = none)
    (hf : ∀ committed, input ≠ .fastForward committed) :
    ((∃ (i : Fin n) (s : NodeStatus), input = .status i s ∧ s.fresher (m.statuses.get i) = false) ∧
        m.respond input = (m, false)) ∨
      (∃ cause, m.respond input = (m.reject cause, false)) ∨ ∃ now, input = .time now := by
  cases input with
  | status node s =>
    simp only [respond, onStatus]
    split
    · rename_i hn
      split
      · exact .inr (.inl ⟨_, rfl⟩)
      · rename_i hi
        split
        · rename_i hs
          simp [opening, hn, hi, hs] at h
        · rename_i hs
          exact .inl ⟨⟨⟨node, hn⟩, s, rfl, by simpa using hs⟩, rfl⟩
    · exact .inr (.inl ⟨_, rfl⟩)
  | heightAdvance height =>
    simp only [respond, onHeightAdvance]
    split
    · rename_i he
      simp [opening, he] at h
    · exact .inr (.inl ⟨_, rfl⟩)
  | committed rid =>
    simp only [respond, onCommitted]
    split
    · rename_i he
      simp [opening, he] at h
    · exact .inr (.inl ⟨_, rfl⟩)
  | received rid signature =>
    simp only [respond, onReceived]
    split
    · rename_i he
      simp [opening, Intent.isWaitingFor] at h he
      exact (h he).elim
    · exact .inr (.inl ⟨_, rfl⟩)
  | built rid signature =>
    simp only [respond, onBuilt]
    split
    · exact .inr (.inl ⟨_, rfl⟩)
    · rename_i hi
      split
      · rename_i hp
        simp only [ne_eq, not_not] at hi
        simp [opening, hi, hp] at h
      · exact .inr (.inl ⟨_, rfl⟩)
  | commitSignature node rid signature =>
    simp only [respond, onCommitSignature]
    split
    · rename_i hn
      split
      · rename_i hp
        simp [opening, hn, hp] at h
      · exact .inr (.inl ⟨_, rfl⟩)
    · exact .inr (.inl ⟨_, rfl⟩)
  | revolt => cases h
  | recompute => cases h
  | fastForward committed => exact (hf committed rfl).elim
  | time now => exact .inr (.inr ⟨now, rfl⟩)

/-- An input without an opening leaves no more than an event or the time, unless it catches up. -/
lemma respond_of_opening_eq_none {input : Input} (h : m.opening input = none)
    (hf : ∀ committed, input ≠ .fastForward committed) :
    (m.respond input).1 = m ∨ (∃ cause, (m.respond input).1 = m.reject cause) ∨
      ∃ now, (m.respond input).1 = m.setTime now := by
  rcases respond_unopened h hf with ⟨-, he⟩ | ⟨cause, he⟩ | ⟨now, rfl⟩
  · exact .inl (by rw [he])
  · exact .inr (.inl ⟨cause, by rw [he]⟩)
  · exact .inr (.inr ⟨now, rfl⟩)

lemma move_of_opening_eq_none {input : Input} (h : m.opening input = none)
    (hf : ∀ committed, input ≠ .fastForward committed) : Move input m (m.respond input).1 := by
  rcases respond_of_opening_eq_none h hf with he | ⟨cause, he⟩ | ⟨now, he⟩
  · rw [he]
    exact .rest m
  · rw [he]
    exact .reject m cause
  · rw [he]
    exact .setTime m now

/-! ### Moments -/

/-- What a manager passes through in at most `limit` steps. -/
def settling : (limit : ℕ) → Manager n → List (Manager n)
  | 0, m => [m, m.cutOff]
  | limit + 1, m =>
    match m.step with
    | none => [m]
    | some m' => m :: settling limit m'

def recomputing (m : Manager n) : List (Manager n) := settling m.config.maxIterations m

/-- What a manager passes through on its way up. -/
def climbing : (heights : ℕ) → Manager n → List (Manager n)
  | 0, m => [m]
  | heights + 1, m => m :: (m.climb.recomputing ++ climbing heights m.advanceHeight)

/-- All that a manager passes through while it responds to an input, itself the first and its
response the last. -/
def moments (m : Manager n) (input : Input) : List (Manager n) :=
  match m.opening input, input with
  | some x, _ => m :: x.recomputing
  | none, .fastForward committed =>
    if Word.saturate (committed + 1) < m.own.height then [m, (m.respond input).1]
    else climbing (Word.saturate (committed + 1) - m.own.height) m
  | none, _ => [m, (m.respond input).1]

/-- The managers of `l` lead from `m` to `m'`, one move at a time. -/
structure IsPath (input : Input) (m m' : Manager n) (l : List (Manager n)) : Prop where
  head : l.head? = some m
  last : l.getLast? = some m'
  chain : l.IsChain (Move input)

section Paths

variable {input : Input} {l l' : List (Manager n)}

lemma isPath_single (m : Manager n) : IsPath input m m [m] := ⟨rfl, rfl, .singleton m⟩

lemma IsPath.append (h : IsPath input m x l) (hmove : Move input x y) (h' : IsPath input y m' l') :
    IsPath input m m' (l ++ l') where
  head := by simp [h.head]
  last := by simp [h'.last]
  chain := by
    refine h.chain.append h'.chain ?_
    intro a ha b hb
    rw [h.last] at ha
    rw [h'.head] at hb
    cases ha
    cases hb
    exact hmove

lemma IsPath.cons (hmove : Move input m x) (h : IsPath input x m' l) :
    IsPath input m m' (m :: l) :=
  (isPath_single m).append hmove h

lemma isPath_settling (limit : ℕ) (m : Manager n) :
    IsPath input m (settle limit m) (settling limit m) := by
  induction limit generalizing m with
  | zero => exact (isPath_single _).cons (.cutOff m)
  | succ limit ih =>
    unfold settle settling
    cases h : m.step with
    | none => exact isPath_single m
    | some m' => exact (ih m').cons (.step h)

lemma isPath_recomputing (m : Manager n) : IsPath input m m.recompute m.recomputing :=
  isPath_settling _ m

lemma isPath_climbing (hi : input.climbs = true) (heights : ℕ) (m : Manager n) :
    IsPath input m (advance heights m) (climbing heights m) := by
  induction heights generalizing m with
  | zero => exact isPath_single m
  | succ heights ih =>
    have hup : IsPath input m m.advanceHeight (m :: m.climb.recomputing) :=
      (isPath_recomputing m.climb).cons (.climb m hi)
    exact hup.append (.rest _) (ih m.advanceHeight)

/-- The moments of an input lead from the manager to its response. -/
theorem isPath_moments (m : Manager n) (input : Input) :
    IsPath input m (m.respond input).1 (m.moments input) := by
  unfold moments
  split
  · rename_i x hx
    obtain ⟨hmove, hr⟩ := respond_opening hx
    rw [hr]
    exact (isPath_recomputing x).cons hmove
  · rename_i committed _
    split
    · rename_i hlt
      simp only [respond, fastForward, hlt, if_true]
      exact (isPath_single _).cons (.reject m _)
    · rename_i hge
      simp only [respond, fastForward, hge, if_false]
      exact isPath_climbing rfl _ m
  · rename_i hf hnone
    exact (isPath_single _).cons (move_of_opening_eq_none hnone hf)

/-- What every move preserves holds at every moment. -/
theorem moments_invariant {P : Manager n → Prop} (hP : P m)
    (hmove : ∀ x y, Move input x y → P x → P y) : ∀ x ∈ m.moments input, P x := by
  have hpath := isPath_moments m input
  apply hpath.chain.induction P _ hmove
  intro hne
  have hhead := hpath.head
  rw [List.head?_eq_some_head hne] at hhead
  rw [Option.some.inj hhead]
  exact hP

theorem respond_invariant {P : Manager n → Prop} (hP : P m)
    (hmove : ∀ x y, Move input x y → P x → P y) : P (m.respond input).1 :=
  moments_invariant hP hmove _ (List.mem_of_getLast? (isPath_moments m input).last)

lemma fixed_respond (m : Manager n) (input : Input) :
    (m.respond input).1.me = m.me ∧ (m.respond input).1.config = m.config :=
  respond_invariant (P := fun x => x.me = m.me ∧ x.config = m.config) ⟨rfl, rfl⟩
    fun _ _ h hx => ⟨h.fixed.1.trans hx.1, h.fixed.2.trans hx.2⟩

end Paths

/-! ### Runs -/

/-- The manager after all inputs, unless one of them leaves the range of a counter. -/
def run (m : Manager n) : List Input → Except Fault (Manager n)
  | [] => .ok m
  | input :: inputs =>
    match m.handle input with
    | .error fault => .error fault
    | .ok (m, _) => run m inputs

lemma ok_of_toOption {ε α : Type} {r : Except ε α} {a : α} (h : r.toOption = some a) :
    r = .ok a := by
  cases r with
  | error e => cases h
  | ok b =>
    cases h
    rfl

lemma exists_of_bind_eq_ok {ε α β : Type} {r : Except ε α} {f : α → Except ε β} {b : β}
    (h : r >>= f = .ok b) : ∃ a, r = .ok a ∧ f a = .ok b := by
  cases r with
  | error e => cases h
  | ok a => exact ⟨a, rfl, h⟩

lemma respond_of_handle {input : Input} {r : Manager n × Bool} (h : m.handle input = .ok r) :
    m.respond input = r := by
  unfold handle at h
  simp only at h
  split at h
  · exact Except.ok.inj h
  · cases h

lemma eq_counterOverflow_of_handle {input : Input} {fault : Fault}
    (h : m.handle input = .error fault) : fault = .counterOverflow := by
  unfold handle at h
  simp only at h
  split at h
  · cases h
  · cases h
    rfl

lemma handle_of_inRange {input : Input} (h : (m.respond input).1.own.inRange = true) :
    m.handle input = .ok (m.respond input) := if_pos h

lemma run_cons_eq_ok {input : Input} {inputs : List Input} :
    m.run (input :: inputs) = .ok m' ↔
      (m.respond input).1.own.inRange = true ∧ (m.respond input).1.run inputs = .ok m' := by
  by_cases hin : (m.respond input).1.own.inRange = true
  · simp [run, handle, hin]
  · simp [run, handle, hin]

/-- What every response preserves is kept by every run. -/
theorem run_induction {P : Manager n → Prop} {inputs : List Input} (hP : P m)
    (hrespond : ∀ x input, P x → P (x.respond input).1) (h : m.run inputs = .ok m') : P m' := by
  induction inputs generalizing m with
  | nil =>
    cases h
    exact hP
  | cons input inputs ih =>
    exact ih (hrespond m input hP) (run_cons_eq_ok.mp h).2

/-- All moments of a run, those of the input that ends it with a fault included. -/
def trail (m : Manager n) : List Input → List (Manager n)
  | [] => [m]
  | input :: inputs =>
    match m.handle input with
    | .error _ => m.moments input
    | .ok (m', _) => m.moments input ++ trail m' inputs

lemma trail_cons {input : Input} {inputs : List Input}
    (h : (m.respond input).1.own.inRange = true) :
    m.trail (input :: inputs) = m.moments input ++ (m.respond input).1.trail inputs := by
  rw [trail, handle_of_inRange h]

lemma head?_trail (m : Manager n) (inputs : List Input) : (m.trail inputs).head? = some m := by
  cases inputs with
  | nil => rfl
  | cons input inputs =>
    have hhead := (isPath_moments m input).head
    unfold trail
    split
    · exact hhead
    · simp [hhead]

/-- A run that no fault ends comes to rest at the last of its moments. -/
theorem getLast?_trail {inputs : List Input} (h : m.run inputs = .ok m') :
    (m.trail inputs).getLast? = some m' := by
  induction inputs generalizing m with
  | nil =>
    cases h
    rfl
  | cons input inputs ih =>
    unfold run at h
    unfold trail
    split at h
    · cases h
    · rename_i m₁ a hr
      simp [ih h]

theorem isChain_trail (m : Manager n) (inputs : List Input) :
    (m.trail inputs).IsChain fun x y => ∃ input, Move input x y := by
  induction inputs generalizing m with
  | nil => exact .singleton m
  | cons input inputs ih =>
    have hpath := isPath_moments m input
    have hchain : (m.moments input).IsChain fun x y => ∃ input, Move input x y :=
      hpath.chain.imp fun _ _ h => ⟨input, h⟩
    unfold trail
    split
    · exact hchain
    · rename_i m₁ a hr
      refine hchain.append (ih m₁) ?_
      intro x hx y hy
      rw [hpath.last, respond_of_handle hr] at hx
      rw [head?_trail] at hy
      cases hx
      cases hy
      exact ⟨input, .rest m₁⟩

/-- What every move preserves holds at all moments of a run. -/
theorem trail_invariant {P : Manager n → Prop} (hP : P m)
    (hmove : ∀ input x y, Move input x y → P x → P y) (inputs : List Input) :
    ∀ x ∈ m.trail inputs, P x := by
  apply (isChain_trail m inputs).induction P _ fun x y ⟨input, h⟩ => hmove input x y h
  intro hne
  have hhead := head?_trail m inputs
  rw [List.head?_eq_some_head hne] at hhead
  rw [Option.some.inj hhead]
  exact hP

/-- What every move preserves is kept by every run. -/
theorem run_invariant {P : Manager n → Prop} {inputs : List Input} (hP : P m)
    (hmove : ∀ input x y, Move input x y → P x → P y) (h : m.run inputs = .ok m') : P m' :=
  trail_invariant hP hmove inputs m' (List.mem_of_getLast? (getLast?_trail h))

/-- A manager that has heard of no one and has not looked at its own status yet. -/
def blank (config : Config) (me : Fin n) (height : ℕ) (serial : ℤ) : Manager n where
  me
  config
  statuses := Table.put (Vector.replicate n NodeStatus.unknown) me (.fresh height serial)
  signatures := Vector.replicate n none
  intent := .doNothing
  heardAt := Vector.replicate n none
  revoltSeen := Vector.replicate n none
  revoltsAgainst := Vector.replicate n 0
  viewChanges := 0
  limitHits := 0
  now := .zero
  journal := []

/-- What holds of a blank manager and is preserved by every move holds of a starting one, unless it
is about events. -/
theorem start_invariant {P : Manager n → Prop} {config : Config} {me : Fin n} {height : ℕ}
    (hP : ∀ serial, P (blank config me height serial))
    (hmove : ∀ x y, Move .recompute x y → P x → P y)
    (hjournal : ∀ x, P x → P { x with journal := [] }) (wallMillis : ℕ) :
    P (start config me height wallMillis) := by
  apply hjournal
  exact (respond_invariant (hP _) hmove : P ((blank config me height _).respond .recompute).1)

lemma fixed_start (config : Config) (me : Fin n) (height wallMillis : ℕ) :
    (start config me height wallMillis).me = me ∧
      (start config me height wallMillis).config = config :=
  start_invariant (P := fun x => x.me = me ∧ x.config = config) (fun _ => ⟨rfl, rfl⟩)
    (fun _ _ h hx => ⟨h.fixed.1.trans hx.1, h.fixed.2.trans hx.2⟩) (fun _ hx => hx) wallMillis

end Conclave.Manager

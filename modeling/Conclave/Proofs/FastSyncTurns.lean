import Conclave.Proofs.FastForward
import Conclave.Proofs.UnexpectedSenders

/-!
# What a turn of a fast sync can do

During a fast sync the loop waits for its pipeline, for a block or for an alarm, and takes up
messages meanwhile. All that a turn can do is said here once: what it needs for that, which stage it
leads to, what it asks a peer for, and what it hears of the chain.
-/

namespace Conclave

variable {n : ℕ}

/-- What a fast sync leaves a trace of. -/
inductive SyncEntry where
  | request (receiver : Option ℕ) (height : ℕ)
  | added
deriving DecidableEq

deriving instance DecidableEq for FastSync, Stage

namespace SyncEntry

def of? : Effect → Option SyncEntry
  | .send receiver (.getBlockAtHeight height) => some (.request receiver height)
  | .count .fastSyncedBlock => some .added
  | _ => none

end SyncEntry

/-! ### What is heard of the chain -/

/-- What a turn tells a loop about the chain. -/
inductive News where
  | nothing
  | reached (height : ℕ)
  | added
deriving DecidableEq

/-- The chain height that is known after the news. -/
def News.after (news : News) (k : ℕ) : ℕ :=
  match news with
  | .nothing => k
  | .reached height => max k height
  | .added => k + 1

lemma News.le_after (news : News) (k : ℕ) : k ≤ news.after k := by
  cases news with
  | nothing => exact le_rfl
  | reached height => exact le_max_left _ _
  | added => exact Nat.le_succ k

/-- The chain height, if the answer is about that. -/
def Answer.chainHeight? : Answer Task → Option (Option ℕ)
  | ⟨.chainHeight, .ok height⟩ => some height
  | _ => none

namespace Stage

def news : Stage → Answer Task → News
  | .readingHeight, ⟨.chainHeight, .ok height⟩ => .reached (height.getD 0)
  | .rechecking _, ⟨.chainHeight, .ok height⟩ => .reached (height.getD 0)
  | .adding .., ⟨.fastAdd _, .ok ()⟩ => .added
  | _, _ => .nothing

/-- Whether the stage waits for the answer to the task. -/
def expects : Stage → Task → Bool
  | .adding .., .fastAdd _ => true
  | .readingHeight, .chainHeight | .rechecking _, .chainHeight | .finishing _, .chainHeight => true
  | _, _ => false

/-- The stage comes to a round for a fast sync with these news, leaving this trace. -/
inductive Opens (s : Stage) : News → List SyncEntry → FastSync → Prop
  | read {height : ℕ} (stage : s = .readingHeight) :
      Opens s (.reached height) [] ⟨height, none, 0⟩
  | retry {f : FastSync} {deadline : Duration} (stage : s = .fetching f deadline) :
      Opens s .nothing [] { f with failures := f.failures + 1 }
  | added {f : FastSync} {timestamp : ℕ} (stage : s = .adding f timestamp) :
      Opens s .added [.added] ⟨f.height + 1, some timestamp, 0⟩
  | recheck {f : FastSync} {height : ℕ} (stage : s = .rechecking f) :
      Opens s (.reached height) [] { f with height := max f.height height }
  | fail {f : FastSync} (stage : s = .rechecking f) : Opens s .nothing [] f

end Stage

/-! ### The trace of a turn -/

lemma Random.mem_of_choose {α : Type} {xs : List α} {g : Random} {a : α}
    (h : (choose xs g).1 = some a) : a ∈ xs := by
  unfold choose at h
  split at h
  · cases h
  · exact List.mem_of_getElem? h

namespace Executor

/-- What an executor has just left a trace of, oldest first. -/
def entries (x : Executor n) : List SyncEntry := x.effects.reverse.filterMap SyncEntry.of?

lemma entries_emit (x : Executor n) (e : Effect) :
    (x.emit e).entries = x.entries ++ (SyncEntry.of? e).toList := by
  simp only [entries, emit, List.reverse_cons, List.filterMap_append]
  cases he : SyncEntry.of? e <;> simp [he]

lemma entries_emit_of_none (x : Executor n) {e : Effect} (he : SyncEntry.of? e = none) :
    (x.emit e).entries = x.entries := by
  rw [entries_emit, he]
  exact List.append_nil _

/-- Without a trace of a fast sync. -/
def Scope.traceless : Scope :=
  .without SyncEntry.of? fun e h => by
    cases e with
    | send => cases h
    | note => rfl
    | count counter => cases counter <;> first | rfl | cases h

lemma Chores.entries {x y : Executor n} (h : Chores .traceless x y) : y.entries = x.entries :=
  h.filterMap_effects fun _ he => he

end Executor

/-! ### One turn -/

namespace Runner

/-- The answer for the loop itself that is at hand. -/
def answer? (r : Runner n) : Option (Answer Task) := r.answers.find? (·.task.isFastSync)

/-- What the answer at hand tells the loop about the chain. -/
def news (r : Runner n) : News :=
  match r.answer? with
  | some a => r.stage.news a
  | none => .nothing

/-- A loop has nothing to go on with: an operation is under way, or what the loop has asked for is
neither there nor overdue. -/
def Idle (r : Runner n) (rung : Duration) : Prop :=
  match r.stage with
  | .pausing => r.busy = true
  | .fetching _ deadline => r.inbox = [] ∧ deadline.reached rung = false
  | stage => ∀ a ∈ r.answer?, stage.expects a.task = false

/-- Another validator is recorded above the height. -/
def Ahead (r : Runner n) (peer height : ℕ) : Prop :=
  ∃ i : Fin n, i.val = peer ∧ i ≠ r.manager.me ∧ height < (r.manager.statuses.get i).height

/-- From `r` a round for `f` begins after the trace `log`: a peer is asked for the next block, or
the fast sync is over. -/
inductive Rounds (r : Runner n) (f : FastSync) (log : List SyncEntry) (r' : Runner n) : Prop
  | settle (stage : r'.stage = .finishing f.timestamp) (entries : r'.entries = log)
      (off : r'.fastSync = false)
  | ask {peer : ℕ} {deadline : Duration} (patient : f.failures ≤ r.sync.fastSyncRetries)
      (ahead : r.Ahead peer (f.height + 1)) (stage : r'.stage = .fetching f deadline)
      (entries : r'.entries = log ++ [.request (some peer) (f.height + 1)])

/-- The kind of the stage tells whether the loop is in a fast sync. -/
lemma inConsensus_eq (r : Runner n) :
    r.inConsensus = decide (r.stage.ctorIdx = 0 ∨ 7 ≤ r.stage.ctorIdx) := by
  unfold inConsensus
  cases r.stage <;> rfl

/-- All that a turn in a fast sync can do. -/
inductive Passage (r : Runner n) (rung : Duration) (r' : Runner n) : News → Prop
  | wait (idle : r.Idle rung) (stage : r'.stage = r.stage) (entries : r'.entries = [])
      (flag : r'.fastSync = r.fastSync) : Passage r rung r' .nothing
  | listen {f : FastSync} {deadline : Duration} (mail : r.inbox ≠ [])
      (stage : r.stage = .fetching f deadline) (stage' : r'.stage = .fetching f deadline)
      (entries : r'.entries = []) : Passage r rung r' .nothing
  | start (stage : r.stage = .pausing) (stage' : r'.stage = .readingHeight)
      (entries : r'.entries = []) : Passage r rung r' .nothing
  | receive {f : FastSync} {deadline : Duration} {timestamp : ℕ}
      (stage : r.stage = .fetching f deadline) (stage' : r'.stage = .adding f timestamp)
      (entries : r'.entries = []) : Passage r rung r' .nothing
  | refuse {f : FastSync} {timestamp : ℕ} (stage : r.stage = .adding f timestamp)
      (stage' : r'.stage = .rechecking { f with failures := f.failures + 1 })
      (entries : r'.entries = []) : Passage r rung r' .nothing
  | cutOff {f : FastSync} {timestamp : ℕ} (stage : r.stage = .adding f timestamp)
      (stage' : r'.stage = .finishing f.timestamp) (entries : r'.entries = [])
      (off : r'.fastSync = false) : Passage r rung r' .nothing
  | round {news : News} {log : List SyncEntry} {f : FastSync}
      (opens : Stage.Opens r.stage news log f) (rounds : Rounds r f log r') :
      Passage r rung r' news
  | leave {news : News} (stage' : r'.inConsensus = true) (entries : r'.entries = [])
      (flag : r'.fastSync = true → r.fastSync = true) (told : news = .added → r'.stage = .ended) :
      Passage r rung r' news

variable {r r' x : Runner n} {f : FastSync} {now time rung : Duration} {w : News}

lemma answer_eq (r : Runner n) : r.answer? = r.ownAnswer?.map Prod.fst := by
  simp [answer?, ownAnswer?, Function.comp_def]

lemma ahead_of_randomPeer {height peer : ℕ}
    (h : (r.randomPeer fun s => s.height > height).1 = some peer) : r.Ahead peer height := by
  have hmem := Random.mem_of_choose h
  obtain ⟨i, hi, rfl⟩ := List.mem_map.mp hmem
  obtain ⟨hne, habove⟩ := of_decide_eq_true (List.mem_filter.mp hi).2
  exact ⟨i, rfl, hne, of_decide_eq_true habove⟩

/-- A round that begins at `x`, with the records and the settings of `r`. -/
lemma rounds_fetch {log : List SyncEntry} (h : x.fetch f time = .ok r') (he : x.entries = log)
    (hm : x.manager = r.manager) (hsync : x.sync = r.sync) :
    Rounds r f log r' ∧ r'.sync = r.sync := by
  subst he
  unfold fetch at h
  split at h
  · cases h
    exact ⟨.settle rfl rfl rfl, hsync⟩
  rename_i hpatient
  split at h
  · cases h
  simp only at h
  split at h
  · cases h
    exact ⟨.settle rfl rfl rfl, hsync⟩
  · rename_i peer hpeer
    cases h
    have hretries : f.failures ≤ r.sync.fastSyncRetries := by
      rw [← hsync]
      omega
    have hahead : r.Ahead peer (f.height + 1) := by
      obtain ⟨i, hi, hne, habove⟩ := ahead_of_randomPeer hpeer
      rw [hm] at hne habove
      exact ⟨i, hi, hne, habove⟩
    exact ⟨.ask hretries hahead rfl (Executor.entries_emit _ _), hsync⟩

lemma idle_of_asks (hasks : r.stage.asks = true)
    (hs : ∀ a ∈ r.answer?, r.stage.expects a.task = false) : r.Idle rung := by
  unfold Idle
  split
  · rename_i hstage
    simp [hstage, Stage.asks] at hasks
  · rename_i hstage
    simp [hstage, Stage.asks] at hasks
  · exact hs

section Answers

variable {a : Answer Task}

/-- An answer that the stage does not wait for is dropped. -/
lemma passage_of_stale (hasks : r.stage.asks = true) (hs : r.stage.expects a.task = false)
    (hquiet : r.entries = []) (hown : r.ownAnswer? = some (a, x)) : Passage r rung x .nothing := by
  have hidle : r.Idle rung := idle_of_asks hasks fun b hb => by
    rw [answer_eq, hown] at hb
    cases hb
    exact hs
  obtain ⟨-, answers, -, rfl⟩ := eq_of_ownAnswer hown
  exact .wait hidle rfl hquiet rfl

lemma passage_heightRead {result : Except PipelineError (Option ℕ)} (hasks : r.stage.asks = true)
    (hquiet : r.entries = []) (hown : r.ownAnswer? = some (⟨.chainHeight, result⟩, x))
    (h : x.heightRead now time result = .ok r') :
    Passage r rung r' (r.stage.news ⟨.chainHeight, result⟩) ∧ r'.sync = r.sync := by
  have hstale : r.stage.expects .chainHeight = false → Passage r rung x .nothing := fun hs =>
    passage_of_stale hasks hs hquiet hown
  obtain ⟨-, answers, -, rfl⟩ := eq_of_ownAnswer hown
  have hnote : ∀ entry, ({ r.toExecutor with answers }.note entry).entries = [] := fun entry =>
    (Executor.entries_emit_of_none _ rfl).trans hquiet
  unfold heightRead at h
  cases hstage : r.stage with simp only [hstage] at h hstale
  | readingHeight =>
    cases result with
    | ok height =>
      obtain ⟨hrounds, hsync⟩ := rounds_fetch (r := r) h (hnote _) rfl rfl
      exact ⟨.round (.read hstage) hrounds, hsync⟩
    | error cause =>
      cases h
      exact ⟨.leave rfl (hnote _) nofun nofun, rfl⟩
  | rechecking f =>
    rcases result with cause | height | height
    · obtain ⟨hrounds, hsync⟩ := rounds_fetch (r := r) h hquiet rfl rfl
      exact ⟨.round (.fail hstage) hrounds, hsync⟩
    · obtain ⟨hrounds, hsync⟩ := rounds_fetch (r := r) h hquiet rfl rfl
      have hopens : Stage.Opens r.stage (.reached 0) [] { f with height := max f.height 0 } :=
        .recheck hstage
      rw [Nat.max_zero] at hopens
      exact ⟨.round hopens hrounds, hsync⟩
    · obtain ⟨hrounds, hsync⟩ := rounds_fetch (r := r) h hquiet rfl rfl
      exact ⟨.round (.recheck hstage) hrounds, hsync⟩
  | finishing timestamp =>
    cases result with
    | ok height =>
      obtain ⟨told, htell, hr⟩ := Manager.exists_of_bind_eq_ok h
      cases hr
      obtain ⟨rfl, -⟩ := Executor.tell_eq_ok htell
      refine ⟨.leave rfl ((Executor.entries_emit_of_none _ rfl).trans ?_) id nofun, rfl⟩
      split <;> exact hquiet
    | error cause =>
      cases h
      exact ⟨.leave rfl (hnote _) id nofun, rfl⟩
  | adding f timestamp =>
    cases h
    exact ⟨hstale rfl, rfl⟩
  | _ => simp [hstage, Stage.asks] at hasks

lemma passage_blockAdded {b : SealedBlock} {result : Except PipelineError Unit}
    (hasks : r.stage.asks = true) (hquiet : r.entries = [])
    (hown : r.ownAnswer? = some (⟨.fastAdd b, result⟩, x))
    (h : x.blockAdded time result = .ok r') :
    Passage r rung r' (r.stage.news ⟨.fastAdd b, result⟩) ∧ r'.sync = r.sync := by
  have hstale : r.stage.expects (.fastAdd b) = false → Passage r rung x .nothing := fun hs =>
    passage_of_stale hasks hs hquiet hown
  obtain ⟨-, answers, -, rfl⟩ := eq_of_ownAnswer hown
  unfold blockAdded at h
  cases hstage : r.stage with simp only [hstage] at h hstale
  | adding f timestamp =>
    cases result with
    | ok reply =>
      have hcount := Executor.entries_emit { r.toExecutor with answers } (.count .fastSyncedBlock)
      have hlog := hcount.trans (congrArg (· ++ [SyncEntry.added]) hquiet)
      obtain ⟨hrounds, hsync⟩ := rounds_fetch (r := r) h hlog rfl rfl
      exact ⟨.round (.added hstage) hrounds, hsync⟩
    | error cause =>
      simp only at h
      split at h <;> cases h
      · exact ⟨.cutOff hstage rfl ((Executor.entries_emit_of_none _ rfl).trans hquiet) rfl, rfl⟩
      · exact ⟨.refuse hstage rfl ((Executor.entries_emit_of_none _ rfl).trans hquiet), rfl⟩
  | readingHeight | rechecking | finishing =>
    cases h
    exact ⟨hstale rfl, rfl⟩
  | _ => simp [hstage, Stage.asks] at hasks

lemma passage_resume (hasks : r.stage.asks = true) (hquiet : r.entries = [])
    (hown : r.ownAnswer? = some (a, x)) (h : x.resume now time a = .ok r') :
    Passage r rung r' (r.stage.news a) ∧ r'.sync = r.sync := by
  have htask := (eq_of_ownAnswer hown).1
  obtain ⟨t, result⟩ := a
  cases t with
  | chainHeight => exact passage_heightRead hasks hquiet hown h
  | fastAdd b => exact passage_blockAdded hasks hquiet hown h
  | _ => cases htask

end Answers

/-- A message that is taken up from the inbox of `r`, which leaves `x`. -/
lemma passage_fetched {deadline : Duration} {sender : ℕ} {message : Message}
    (hstage : r.stage = .fetching f deadline) (hmail : r.inbox ≠ [])
    (h : x.fetched now f sender message = .ok r') (hstage' : x.stage = .fetching f deadline)
    (hquiet : x.entries = []) (hsync : x.sync = r.sync) :
    Passage r rung r' .nothing ∧ r'.sync = r.sync := by
  have hhandle : ∀ {message}, x.handle now sender message = .ok r' →
      Passage r rung r' .nothing ∧ r'.sync = r.sync := fun {message} h => by
    obtain ⟨v, hv, hr⟩ := Manager.exists_of_bind_eq_ok h
    cases hr
    have hworks : Validator.Works .traceless x.toValidator v :=
      Validator.works_handleMessage (message.heard_true sender) (fun _ => rfl) (fun _ _ _ => rfl) hv
    exact ⟨.listen hmail hstage hstage' (hworks.chores.entries.trans hquiet),
      hworks.sync.trans hsync⟩
  unfold fetched at h
  split at h
  · split at h
    · cases h
      exact ⟨.receive hstage rfl hquiet, hsync⟩
    · exact hhandle h
  · exact hhandle h

lemma news_of_not_asks (hasks : r.stage.asks = false) : r.news = .nothing := by
  unfold news
  split
  · cases hstage : r.stage with
    | readingHeight | adding | rechecking | finishing =>
      rw [hstage] at hasks
      cases hasks
    | _ => rfl
  · rfl

lemma turn_of_ownAnswer {a : Answer Task} (hasks : r.stage.asks = true)
    (hown : r.ownAnswer? = some (a, x)) :
    r.turn now time rung = (x.resume now time a).map some := by
  unfold turn
  cases hstage : r.stage with
  | readingHeight | adding | rechecking | finishing =>
    simp only [hown]
    cases x.resume now time a <;> rfl
  | _ => simp [hstage, Stage.asks] at hasks

lemma turn_of_unanswered (hasks : r.stage.asks = true) (hown : r.ownAnswer? = none) :
    r.turn now time rung = .ok none := by
  unfold turn
  cases hstage : r.stage with
  | readingHeight | adding | rechecking | finishing =>
    simp only [hown]
    rfl
  | _ => simp [hstage, Stage.asks] at hasks

lemma passage_of_asks (hasks : r.stage.asks = true) (hquiet : r.entries = [])
    (h : r.turn now time rung = .ok (some r')) :
    Passage r rung r' r.news ∧ r'.sync = r.sync := by
  cases hown : r.ownAnswer? with
  | none =>
    rw [turn_of_unanswered hasks hown] at h
    cases h
  | some own =>
    obtain ⟨a, x⟩ := own
    rw [turn_of_ownAnswer hasks hown] at h
    cases hresume : x.resume now time a with
    | error fault =>
      rw [hresume] at h
      cases h
    | ok y =>
      rw [hresume] at h
      cases h
      unfold news
      rw [answer_eq, hown]
      exact passage_resume hasks hquiet hown hresume

lemma passage_turn (hs : r.inConsensus = false) (hquiet : r.entries = [])
    (h : r.turn now time rung = .ok (some r')) :
    Passage r rung r' r.news ∧ r'.sync = r.sync := by
  by_cases hasks : r.stage.asks = true
  · exact passage_of_asks hasks hquiet h
  -- Elsewhere no answer counts: the loop waits for the operation under way, or for a block.
  rw [news_of_not_asks (by simpa using hasks)]
  cases takes_of_turn h with
  | pause stage => exact ⟨.start stage rfl hquiet, rfl⟩
  | giveUp => exact ⟨.leave rfl hquiet id nofun, rfl⟩
  | fetched stage mail handled =>
    exact passage_fetched stage (by simp [mail]) handled stage hquiet rfl
  | timeOut stage _ asked =>
    have hnote : (r.note .fastSyncTimedOut).entries = [] :=
      (Executor.entries_emit_of_none _ rfl).trans hquiet
    obtain ⟨hrounds, hsync⟩ := rounds_fetch (r := r) asked hnote rfl rfl
    exact ⟨.round (.retry stage) hrounds, hsync⟩
  | resume waiting =>
    have hended : r.stage = .ended := waiting.resolve_left hasks
    simp [inConsensus, hended] at hs
  | shutDown stage | handle stage | hangUp stage | tick stage | stop stage | finish stage =>
    simp [inConsensus, stage] at hs

/-- A loop that does not go on has nothing to go on with. -/
lemma idle_of_turn (hs : r.inConsensus = false) (h : r.turn now time rung = .ok none) :
    r.Idle rung ∧ r.news = .nothing := by
  by_cases hasks : r.stage.asks = true
  · cases hown : r.ownAnswer? with
    | none =>
      have hanswer : r.answer? = none := by rw [answer_eq, hown]; rfl
      exact ⟨idle_of_asks hasks (by simp [hanswer]), by simp [news, hanswer]⟩
    | some own =>
      obtain ⟨a, x⟩ := own
      rw [turn_of_ownAnswer hasks hown] at h
      cases hresume : x.resume now time a <;> rw [hresume] at h <;> cases h
  rw [Bool.not_eq_true] at hasks
  refine ⟨?_, news_of_not_asks hasks⟩
  unfold turn at h
  cases hstage : r.stage with simp only [hstage] at h
  | pausing =>
    split at h
    · rename_i hbusy
      simpa [Idle, hstage] using hbusy
    · cases h
  | fetching f deadline =>
    split at h
    · cases h
    split at h
    · obtain ⟨y, -, hr⟩ := Manager.exists_of_bind_eq_ok h
      cases hr
    rename_i hinbox
    split at h
    · cases h
    split at h
    · obtain ⟨y, -, hr⟩ := Manager.exists_of_bind_eq_ok h
      cases hr
    · rename_i hdue
      simpa [Idle, hstage, hinbox] using hdue
  | _ => simp [inConsensus, Stage.asks, hstage] at hs hasks

/-- What an earlier happening has left a trace of does not matter. -/
lemma Passage.of_quiet (h : Passage { r with effects := [] } rung r' w) :
    Passage r rung r' w := by
  cases h with
  | wait idle stage entries flag => exact .wait idle stage entries flag
  | listen mail stage stage' entries => exact .listen mail stage stage' entries
  | start stage stage' entries => exact .start stage stage' entries
  | receive stage stage' entries => exact .receive stage stage' entries
  | refuse stage stage' entries => exact .refuse stage stage' entries
  | cutOff stage stage' entries off => exact .cutOff stage stage' entries off
  | round opens rounds =>
    cases rounds with
    | settle stage entries off => exact .round opens (.settle stage entries off)
    | ask patient ahead stage entries => exact .round opens (.ask patient ahead stage entries)
  | leave stage' entries flag told => exact .leave stage' entries flag told

/-- A turn of a loop in a fast sync, a fault included. -/
theorem passage_next (hs : r.inConsensus = false) :
    Passage r rung (r.next (.turn now time rung)) r.news ∧
      (r.next (.turn now time rung)).sync = r.sync := by
  unfold next
  split
  · rename_i y hstep
    obtain ⟨taken, hturn, hy⟩ := Manager.exists_of_bind_eq_ok hstep
    cases hy
    cases taken with
    | none =>
      obtain ⟨hidle, hnews⟩ := idle_of_turn (r := { r with effects := [] }) hs hturn
      have hnothing : r.news = .nothing := hnews
      rw [hnothing]
      exact ⟨.wait hidle rfl rfl rfl, rfl⟩
    | some y =>
      obtain ⟨hpassage, hsync⟩ := passage_turn (r := { r with effects := [] }) hs rfl hturn
      exact ⟨hpassage.of_quiet, hsync⟩
  · exact ⟨.leave rfl rfl id fun _ => rfl, rfl⟩

/-! ### The end -/

lemma exists_heightRead_of_finishing (now time : Duration) {timestamp last : Option ℕ}
    (hstage : x.stage = .finishing timestamp) (hrange : x.manager.own.inRange = true)
    (hserial : x.manager.own.serial +
      (Word.saturate (last.getD 0 + 1) - x.manager.own.height : ℕ) ≤ Word.maxSigned) :
    ∃ r', x.heightRead now time (.ok last) = .ok r' ∧ r'.stage = .ready ∧
      r'.fastSync = x.fastSync ∧
      r'.manager.own.height =
        max x.manager.own.height (Word.saturate (last.getD 0 + 1)) := by
  obtain ⟨m', applied, hhandle, hheight⟩ :=
    Manager.exists_handle_fastForward (m := x.manager.setTime now) hrange hserial
  have htell : (x.toExecutor.setTime now).tell (.fastForward (last.getD 0)) =
      .ok ({ x.toExecutor with manager := m' }, applied) := by
    unfold Executor.tell
    rw [show (x.toExecutor.setTime now).manager = x.manager.setTime now from rfl, hhandle]
    rfl
  unfold heightRead
  simp only [hstage, htell]
  refine ⟨_, rfl, rfl, rfl, ?_⟩
  change (Executor.manager (ite _ _ _)).own.height = _
  split <;> exact hheight

/-- With the chain height at hand, a fast sync that is over comes to its end. -/
lemma next_of_finishing {timestamp last : Option ℕ} (hstage : r.stage = .finishing timestamp)
    (hanswer : r.answer?.bind Answer.chainHeight? = some last)
    (hrange : r.manager.own.inRange = true)
    (hserial : r.manager.own.serial +
      (Word.saturate (last.getD 0 + 1) - r.manager.own.height : ℕ) ≤ Word.maxSigned) :
    let r' := r.next (.turn now time rung)
    r'.stage = .ready ∧ r'.fastSync = r.fastSync ∧
      r'.manager.own.height = max r.manager.own.height (Word.saturate (last.getD 0 + 1)) := by
  obtain ⟨a, ha, hlast⟩ := Option.bind_eq_some_iff.mp hanswer
  obtain rfl : a = ⟨.chainHeight, .ok last⟩ := by
    unfold Answer.chainHeight? at hlast
    split at hlast <;> cases hlast
    rfl
  obtain ⟨⟨a, x⟩, hown, rfl⟩ : ∃ own, { r with effects := [] }.ownAnswer? = some own ∧
      own.1 = ⟨.chainHeight, .ok last⟩ := by
    rwa [← Option.map_eq_some_iff, ← answer_eq]
  have hasks : { r with effects := [] }.stage.asks = true := by
    change r.stage.asks = true
    rw [hstage]
    rfl
  have hturn : { r with effects := [] }.turn now time rung = _ := turn_of_ownAnswer hasks hown
  obtain ⟨hs, hm, hf⟩ : x.stage = r.stage ∧ x.manager = r.manager ∧ x.fastSync = r.fastSync := by
    obtain ⟨-, answers, -, rfl⟩ := eq_of_ownAnswer hown
    exact ⟨rfl, rfl, rfl⟩
  rw [← hm] at hrange hserial
  obtain ⟨r', hread, hready, hflag, hheight⟩ :=
    exists_heightRead_of_finishing now time (hs.trans hstage) hrange hserial
  have hresume : x.resume now time ⟨.chainHeight, .ok last⟩ = .ok r' := hread
  have hnext : r.next (.turn now time rung) = r' := by
    simp only [next, step, hturn, hresume]
    rfl
  intro r''
  rw [show r'' = r' from hnext]
  exact ⟨hready, hflag.trans hf, hm ▸ hheight⟩

end Runner

end Conclave

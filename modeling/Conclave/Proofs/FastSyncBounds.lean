import Conclave.Proofs.FastSyncTurns

/-!
# How long a fast sync goes on

A fast sync asks for the block after the chain that it knows of, again if need be, until nobody is
recorded far enough ahead or too many requests in a row have come to nothing. What it knows of grows
with every block that was added and may grow by other blocks, the records of its peers change, and
answers come late or not at all. An account of the requests is kept through every turn: a block that
was added starts a new row, and there are no more rows than heights to ask for.
-/

namespace Conclave

variable {n : ℕ}

namespace SyncEntry

def isRequest : SyncEntry → Bool
  | .request .. => true
  | .added => false

def requests (log : List SyncEntry) : ℕ := log.countP isRequest

def adds (log : List SyncEntry) : ℕ := log.count .added

variable {log log' : List SyncEntry} {receiver : Option ℕ} {height : ℕ}

@[simp] lemma requests_append : requests (log ++ log') = requests log + requests log' :=
  List.countP_append

@[simp] lemma adds_append : adds (log ++ log') = adds log + adds log' := List.count_append

@[simp] lemma requests_nil : requests [] = 0 := rfl

@[simp] lemma adds_nil : adds [] = 0 := rfl

@[simp] lemma requests_request : requests [.request receiver height] = 1 := rfl

@[simp] lemma adds_request : adds [.request receiver height] = 0 := rfl

@[simp] lemma requests_added : requests [.added] = 0 := rfl

@[simp] lemma adds_added : adds [.added] = 1 := rfl

end SyncEntry

open SyncEntry (requests adds)

/-! ### Accounts -/

/-- The log of a fast sync that makes at most `m` further attempts at a block. The last `tries`
entries are requests, and each one is for a height above the blocks that were added before. -/
inductive Tallied (m : ℕ) : List SyncEntry → ℕ → Prop
  | nil : Tallied m [] 0
  | request {log : List SyncEntry} {tries height : ℕ} {receiver : Option ℕ}
      (account : Tallied m log tries) (patient : tries ≤ m) (above : adds log < height) :
      Tallied m (log ++ [.request receiver height]) (tries + 1)
  | added {log : List SyncEntry} {tries : ℕ} (account : Tallied m log tries) :
      Tallied m (log ++ [.added]) 0

namespace Tallied

variable {m tries : ℕ} {log : List SyncEntry}

lemma tries_le (h : Tallied m log tries) : tries ≤ m + 1 := by
  cases h with
  | nil | added => exact Nat.zero_le _
  | request _ patient => exact Nat.succ_le_succ patient

/-- At the end of a log, a row of requests is one of the last tries. -/
lemma length_le_of_suffix (h : Tallied m log tries) {row : List SyncEntry} (hrow : row <:+ log)
    (hnone : .added ∉ row) : row.length ≤ tries := by
  induction h generalizing row with
  | nil => simp [List.suffix_nil.mp hrow]
  | request _ _ _ ih =>
    rcases List.suffix_concat_iff.mp hrow with rfl | ⟨start, rfl, hstart⟩
    · exact Nat.zero_le _
    · rw [List.length_append, List.length_singleton]
      exact Nat.succ_le_succ (ih hstart fun h => hnone (List.mem_append_left _ h))
  | added =>
    rcases List.suffix_concat_iff.mp hrow with rfl | ⟨start, rfl, -⟩
    · exact le_rfl
    · simp at hnone

lemma length_le_of_infix (h : Tallied m log tries) {row : List SyncEntry} (hrow : row <:+: log)
    (hnone : .added ∉ row) : row.length ≤ m + 1 := by
  have hsuffix : ∀ {log tries}, Tallied m log tries → row <:+ log → row.length ≤ m + 1 :=
    fun h hrow => (h.length_le_of_suffix hrow hnone).trans h.tries_le
  induction h with
  | nil => simp [List.infix_nil.mp hrow]
  | request account patient above ih =>
    rcases List.infix_concat_iff.mp hrow with hlast | hrow
    · exact hsuffix (account.request patient above) hlast
    · exact ih hrow
  | added account ih =>
    rcases List.infix_concat_iff.mp hrow with hlast | hrow
    · exact hsuffix account.added hlast
    · exact ih hrow

/-- Every block that was added accounts for a row of requests, and so do the last tries. -/
lemma requests_le (h : Tallied m log tries) : requests log ≤ adds log * (m + 1) + tries := by
  induction h with
  | nil => simp
  | request _ _ _ ih =>
    simp only [SyncEntry.requests_append, SyncEntry.requests_request, SyncEntry.adds_append,
      SyncEntry.adds_request, Nat.add_zero]
    omega
  | added account ih =>
    have htries := account.tries_le
    simp only [SyncEntry.requests_append, SyncEntry.requests_added, SyncEntry.adds_append,
      SyncEntry.adds_added, Nat.add_mul]
    omega

/-- Requests for heights up to `top` come in no more rows than that. -/
lemma requests_le_of_heights (h : Tallied m log tries) {top : ℕ}
    (htop : ∀ receiver height, SyncEntry.request receiver height ∈ log → height ≤ top) :
    requests log ≤ top * (m + 1) := by
  induction h with
  | nil => simp
  | @request log tries height receiver account patient above ih =>
    have hheight : height ≤ top := htop receiver height (by simp)
    calc requests (log ++ [.request receiver height])
      _ = requests log + 1 := by simp
      _ ≤ adds log * (m + 1) + (m + 1) := (Nat.succ_le_succ account.requests_le).trans (by omega)
      _ = (adds log + 1) * (m + 1) := (Nat.succ_mul _ _).symm
      _ ≤ top * (m + 1) := Nat.mul_le_mul_right _ (by omega)
  | added account ih =>
    rw [SyncEntry.requests_append]
    exact ih fun receiver height hr => htop receiver height (List.mem_append_left _ hr)

end Tallied

/-! ### The account through a turn -/

namespace Stage

/-- What the stage holds agrees with the known chain height and with the last tries of the log. -/
def Agrees (m k tries : ℕ) : Stage → Prop
  | .pausing | .readingHeight => k = 0 ∧ tries = 0
  | .fetching f _ | .adding f _ => f.height = k ∧ f.failures ≤ m ∧ tries = f.failures + 1
  | .rechecking f => f.height = k ∧ tries = f.failures
  | _ => True

/-- How often a loop at the stage may have moved beyond three times for each request. -/
def slack : Stage → ℕ
  | .fetching .. => 0
  | .pausing | .adding .. => 1
  | .readingHeight | .rechecking _ => 2
  | .finishing _ => 3
  | _ => 4

end Stage

/-- The log so far is accounted for, at a stage with the known chain height `k`. -/
structure Ledger (m : ℕ) (log : List SyncEntry) (k : ℕ) (s : Stage) : Prop where
  tallied : ∃ tries, Tallied m log tries ∧ s.Agrees m k tries
  adds_le : adds log ≤ k

namespace Ledger

open Runner (Passage Rounds)

variable {m k : ℕ} {log trace : List SyncEntry} {s : Stage} {f : FastSync} {w : News}
  {r r' : Runner n} {rung : Duration}

lemma opens (h : Ledger m log k s) (ho : s.Opens w trace f) :
    Tallied m (log ++ trace) f.failures ∧ f.height = w.after k ∧
      adds (log ++ trace) ≤ w.after k := by
  obtain ⟨⟨tries, htallied, hagrees⟩, hadds⟩ := h
  cases ho with
  | read stage =>
    subst stage
    obtain ⟨rfl, rfl⟩ := hagrees
    rw [List.append_nil]
    exact ⟨htallied, (Nat.zero_max _).symm, hadds.trans (Nat.zero_le _)⟩
  | retry stage =>
    subst stage
    obtain ⟨hheight, -, rfl⟩ := hagrees
    rw [List.append_nil]
    exact ⟨htallied, hheight, hadds⟩
  | added stage =>
    subst stage
    obtain ⟨hheight, -, rfl⟩ := hagrees
    refine ⟨htallied.added, congrArg (· + 1) hheight, ?_⟩
    rw [SyncEntry.adds_append]
    exact Nat.succ_le_succ hadds
  | recheck stage | fail stage =>
    subst stage
    obtain ⟨rfl, rfl⟩ := hagrees
    rw [List.append_nil]
    exact ⟨htallied, rfl, hadds.trans (News.le_after _ _)⟩

lemma passage (h : Ledger m log k r.stage) (hm : r.sync.fastSyncRetries = m)
    (hp : Passage r rung r' w) : Ledger m (log ++ r'.entries) (w.after k) r'.stage := by
  obtain ⟨tries, htallied, hagrees⟩ := h.tallied
  -- A turn that leaves no trace and tells nothing only has to agree with the same log.
  have hsilent : r'.entries = [] → r'.stage.Agrees m k tries →
      Ledger m (log ++ r'.entries) k r'.stage := fun he ha => by
    rw [he, List.append_nil]
    exact ⟨⟨tries, htallied, ha⟩, h.adds_le⟩
  cases hp with
  | wait idle stage entries flag => exact hsilent entries (by rwa [stage])
  | listen _ stage stage' entries | start stage stage' entries | receive stage stage' entries =>
    rw [stage] at hagrees
    exact hsilent entries (by rwa [stage'])
  | refuse stage stage' entries =>
    rw [stage] at hagrees
    refine hsilent entries ?_
    rw [stage']
    exact ⟨hagrees.1, hagrees.2.2⟩
  | cutOff stage stage' entries off => exact hsilent entries (by rw [stage']; trivial)
  | leave stage' entries flag told =>
    rw [entries, List.append_nil]
    refine ⟨⟨tries, htallied, ?_⟩, h.adds_le.trans (w.le_after k)⟩
    rcases Runner.stage_of_inConsensus stage' with hs | hs | hs | hs <;> rw [hs] <;> trivial
  | round opens rounds =>
    obtain ⟨hopen, hheight, hadds⟩ := h.opens opens
    cases rounds with
    | settle stage entries off =>
      rw [entries, stage]
      exact ⟨⟨_, hopen, trivial⟩, hadds⟩
    | ask patient ahead stage entries =>
      rw [hm] at patient
      rw [entries, stage, ← List.append_assoc]
      refine ⟨⟨_, hopen.request patient (by omega), hheight, patient, rfl⟩, ?_⟩
      rw [SyncEntry.adds_append]
      exact hadds

/-- Whoever is asked for a block is asked for the next one, and recorded above it. -/
lemma request (h : Ledger m log k r.stage) (hp : Passage r rung r' w) {receiver : Option ℕ}
    {height : ℕ} (hr : .request receiver height ∈ r'.entries) :
    height = w.after k + 1 ∧ ∃ i : Fin n, receiver = some i.val ∧ i ≠ r.manager.me ∧
      w.after k + 1 < (r.manager.statuses.get i).height := by
  have hsilent : r'.entries ≠ [] := List.ne_nil_of_mem hr
  cases hp with
  | wait _ _ entries | listen _ _ _ entries | start _ _ entries | receive _ _ entries
  | refuse _ _ entries | cutOff _ _ entries | leave _ entries => exact absurd entries hsilent
  | @round _ trace f opens rounds =>
    obtain ⟨-, hheight, -⟩ := h.opens opens
    have hnone : .request receiver height ∉ trace := by cases opens <;> simp
    cases rounds with
    | settle stage entries off => exact absurd (entries ▸ hr) hnone
    | ask patient ahead stage entries =>
      obtain ⟨i, rfl, hne, habove⟩ := ahead
      rw [hheight] at entries habove
      rw [entries] at hr
      obtain ⟨rfl, rfl⟩ : receiver = some i.val ∧ height = w.after k + 1 := by
        simpa [hnone] using hr
      exact ⟨rfl, i, rfl, hne, habove⟩

end Ledger

/-! ### The turns of a fast sync -/

/-- A turn of a loop. -/
structure Turn (n : ℕ) where
  before : Runner n
  now : Duration
  time : Duration
  rung : Duration

namespace Turn

def after (t : Turn n) : Runner n := t.before.next (.turn t.now t.time t.rung)

def entries (t : Turn n) : List SyncEntry := t.after.entries

/-- Whether a turn leaves a trace or leads to another stage. -/
def moves (t : Turn n) : Bool :=
  t.entries ≠ [] ∨ t.after.stage.ctorIdx ≠ t.before.stage.ctorIdx

variable {t : Turn n}

lemma passage (hs : t.before.inConsensus = false) :
    t.before.Passage t.rung t.after t.before.news ∧ t.after.sync = t.before.sync :=
  Runner.passage_next hs

lemma moves_of_stage {s s' : Stage} (h : t.before.stage = s) (h' : t.after.stage = s')
    (hentries : t.entries = []) : t.moves = decide (s'.ctorIdx ≠ s.ctorIdx) := by
  simp [moves, h, h', hentries]

/-- What a move uses up. -/
lemma moves_le (hs : t.before.inConsensus = false) :
    t.moves.toNat + t.before.stage.slack ≤ 3 * requests t.entries + t.after.stage.slack := by
  have hmove := Bool.toNat_le t.moves
  obtain ⟨hp, -⟩ := passage hs
  generalize t.before.news = w at hp
  cases hp with
  | wait idle stage entries flag =>
    rw [moves_of_stage rfl stage entries, stage]
    simp
  | listen mail stage stage' entries =>
    rw [moves_of_stage stage stage' entries, stage, stage']
    simp
  | start stage stage' entries | receive stage stage' entries | refuse stage stage' entries
  | cutOff stage stage' entries =>
    simp only [stage, stage', Stage.slack]
    omega
  | leave stage' entries flag told =>
    have hbefore : t.before.stage.slack ≤ 3 := by
      unfold Runner.inConsensus at hs
      cases hstage : t.before.stage <;> simp [hstage, Stage.slack] at hs ⊢
    have hafter : t.after.stage.slack = 4 := by
      rcases Runner.stage_of_inConsensus stage' with hs | hs | hs | hs <;> rw [hs] <;> rfl
    omega
  | round opens rounds =>
    have hbefore : t.before.stage.slack ≤ 2 := by
      cases opens with
      | read before | retry before | added before | recheck before | fail before =>
        simp [before, Stage.slack]
    cases rounds with
    | settle stage entries off =>
      have hafter : t.after.stage.slack = 3 := by rw [stage]; rfl
      omega
    | ask patient ahead stage entries =>
      have hone : requests t.entries = requests _ + 1 :=
        (congrArg requests entries).trans SyncEntry.requests_append
      omega

lemma adds_entries (hs : t.before.inConsensus = false) (hend : t.after.stage ≠ .ended) :
    adds t.entries = if t.before.news = .added then 1 else 0 := by
  obtain ⟨hp, -⟩ := passage hs
  generalize t.before.news = w at hp ⊢
  cases hp with
  | wait _ _ entries | listen _ _ _ entries | start _ _ entries | receive _ _ entries
  | refuse _ _ entries | cutOff _ _ entries =>
    exact congrArg adds entries
  | leave stage' entries flag told =>
    rw [if_neg fun hw => hend (told hw)]
    exact congrArg adds entries
  | @round _ trace f opens rounds =>
    have htrace : adds trace = if w = .added then 1 else 0 := by cases opens <;> rfl
    rw [← htrace]
    cases rounds with
    | settle stage entries off => exact congrArg adds entries
    | ask patient ahead stage entries =>
      exact (congrArg adds entries).trans SyncEntry.adds_append

/-- A turn that does not move finds nothing to go on with, or takes up a message. -/
lemma stays (hs : t.before.inConsensus = false) (hstay : t.moves = false) :
    t.before.Idle t.rung ∨
      ∃ f deadline, t.before.stage = .fetching f deadline ∧ t.before.inbox ≠ [] := by
  simp only [moves, decide_eq_false_iff_not, not_or, not_not] at hstay
  obtain ⟨hnone, hkind⟩ := hstay
  obtain ⟨hp, -⟩ := passage hs
  generalize t.before.news = w at hp
  cases hp with
  | wait idle => exact .inl idle
  | listen mail stage => exact .inr ⟨_, _, stage, mail⟩
  | start stage stage' | receive stage stage' | refuse stage stage' | cutOff stage stage' =>
    rw [stage, stage'] at hkind
    cases hkind
  | leave stage' =>
    rw [Runner.inConsensus_eq, hkind, ← Runner.inConsensus_eq, hs] at stage'
    cases stage'
  | round opens rounds =>
    cases rounds with
    | settle stage =>
      cases opens with
      | read before | retry before | added before | recheck before | fail before =>
        rw [stage, before] at hkind
        cases hkind
    | ask patient ahead stage entries =>
      exact absurd (entries.symm.trans hnone) (List.append_ne_nil_of_right_ne_nil _ (by simp))

end Turn

/-- Between two turns of a fast sync peers are heard, answers come in and time passes. Only the
stage of the loop, the settings and the flag are as the last turn left them. -/
structure Drifts (r r' : Runner n) : Prop where
  stage : r'.stage = r.stage
  sync : r'.sync = r.sync
  fastSync : r'.fastSync = r.fastSync

/-- The turns of a fast sync with `m` retries, from its start on. -/
structure Voyage (m : ℕ) (turns : List (Turn n)) : Prop where
  starts : ∀ t ∈ turns.head?, t.before.stage = .pausing ∧ t.before.sync.fastSyncRetries = m
  lasts : ∀ t ∈ turns, t.before.inConsensus = false
  joins : turns.IsChain fun t t' => Drifts t.after t'.before

def syncLog (turns : List (Turn n)) : List SyncEntry := turns.flatMap Turn.entries

/-- The chain height that a fast sync knows after the turns. -/
def knownHeight (turns : List (Turn n)) : ℕ := turns.foldl (fun k t => t.before.news.after k) 0

/-- The books of a fast sync that has come from the turns to `r`. -/
structure Books (m : ℕ) (turns : List (Turn n)) (r : Runner n) : Prop where
  retries : r.sync.fastSyncRetries = m
  ledger : Ledger m (syncLog turns) (knownHeight turns) r.stage
  moves : turns.countP Turn.moves + 1 ≤ 3 * requests (syncLog turns) + r.stage.slack
  off : ∀ timestamp, r.stage = .finishing timestamp → r.fastSync = false

section Voyages

variable {m : ℕ} {turns pre post : List (Turn n)} {t : Turn n} {r r' : Runner n}

lemma syncLog_concat : syncLog (turns ++ [t]) = syncLog turns ++ t.entries := by simp [syncLog]

lemma knownHeight_concat :
    knownHeight (turns ++ [t]) = t.before.news.after (knownHeight turns) := by
  simp [knownHeight]

lemma Books.drifts (h : Books m turns r) (hd : Drifts r r') : Books m turns r' where
  retries := by rw [hd.sync, h.retries]
  ledger := by rw [hd.stage]; exact h.ledger
  moves := by rw [hd.stage]; exact h.moves
  off timestamp hs := hd.fastSync.trans (h.off timestamp (hd.stage ▸ hs))

lemma Books.turn (h : Books m turns t.before) (hs : t.before.inConsensus = false) :
    Books m (turns ++ [t]) t.after := by
  obtain ⟨hp, hsync⟩ := Turn.passage hs
  refine ⟨hsync ▸ h.retries, ?ledger, ?moves, ?off⟩
  case ledger =>
    rw [syncLog_concat, knownHeight_concat]
    exact h.ledger.passage h.retries hp
  case moves =>
    have hmoves := h.moves
    have hmove := Turn.moves_le hs
    have hcount : [t].countP Turn.moves = t.moves.toNat := by
      rw [List.countP_singleton]
      cases t.moves <;> rfl
    rw [List.countP_append, hcount, syncLog_concat, SyncEntry.requests_append]
    omega
  case off =>
    intro timestamp hfinishing
    generalize t.before.news = w at hp
    cases hp with
    | wait idle stage entries flag => exact flag.trans (h.off timestamp (stage ▸ hfinishing))
    | cutOff stage stage' entries off => exact off
    | listen _ _ stage' | start _ stage' | receive _ stage' | refuse _ stage' =>
      cases stage'.symm.trans hfinishing
    | leave stage' entries flag told =>
      unfold Runner.inConsensus at stage'
      rw [hfinishing] at stage'
      cases stage'
    | round opens rounds =>
      cases rounds with
      | settle stage entries off => exact off
      | ask patient ahead stage entries => cases stage.symm.trans hfinishing

lemma Voyage.books_before (h : Voyage m turns) (hturns : turns = pre ++ t :: post) :
    Books m pre t.before := by
  -- The turns before are taken away from the last one on.
  induction pre using List.reverseRecOn generalizing t post with
  | nil =>
    obtain ⟨hstage, hretries⟩ := h.starts t (by rw [hturns]; rfl)
    refine ⟨hretries, ?_, ?_, fun timestamp hs => ?_⟩
    · rw [hstage]
      exact ⟨⟨0, .nil, rfl, rfl⟩, le_rfl⟩
    · rw [hstage]
      exact le_rfl
    · cases hstage.symm.trans hs
  | append_singleton pre t' ih =>
    rw [List.append_assoc, List.singleton_append] at hturns
    have hbooks := (ih hturns).turn (h.lasts t' (by simp [hturns]))
    have hjoins := h.joins
    rw [hturns] at hjoins
    exact hbooks.drifts (List.isChain_cons_cons.mp (List.isChain_append.mp hjoins).2.1).1

lemma Voyage.books_after (h : Voyage m turns) (hturns : turns = pre ++ t :: post) :
    Books m (pre ++ [t]) t.after :=
  (h.books_before hturns).turn (h.lasts t (by simp [hturns]))

lemma Voyage.tallied (h : Voyage m turns) :
    (∃ tries, Tallied m (syncLog turns) tries) ∧
      turns.countP Turn.moves ≤ 3 * requests (syncLog turns) + 3 := by
  rcases turns.eq_nil_or_concat' with rfl | ⟨pre, t, rfl⟩
  · exact ⟨⟨0, .nil⟩, Nat.zero_le _⟩
  · have hbooks := h.books_after rfl
    obtain ⟨tries, htallied, -⟩ := hbooks.ledger.tallied
    have hmoves := hbooks.moves
    have hslack : t.after.stage.slack ≤ 4 := by cases t.after.stage <;> simp [Stage.slack]
    exact ⟨⟨tries, htallied⟩, by omega⟩

end Voyages

/-! ### Runs -/

/-- Whether something can happen to a validator in its loop, which takes up its messages and ticks
itself. -/
def Happening.inLoop : Happening → Bool
  | .message .. | .tick _ => false
  | _ => true

namespace Runner

/-- The turns of a run until the loop is no longer in a fast sync. -/
def syncTurns (r : Runner n) : List Happening → List (Turn n)
  | [] => []
  | e :: es =>
    if r.inConsensus then []
    else
      match e with
      | .turn now time rung => ⟨r, now, time, rung⟩ :: (r.next e).syncTurns es
      | _ => (r.next e).syncTurns es

variable {r : Runner n} {es : List Happening}

lemma drifts_next {e : Happening} (he : e.inLoop = true)
    (hturn : ∀ now time rung, e ≠ .turn now time rung) :
    Drifts r (r.next e) ∨ (r.next e).stage = .ended := by
  unfold next
  split
  · rename_i y hstep
    left
    cases e with
    | turn now time rung => exact absurd rfl (hturn now time rung)
    | message | tick => cases he
    | mail | pump | work | push | spoil | shutDown | closeInbox | stop =>
      cases hstep
      exact ⟨rfl, rfl, rfl⟩
    | revolt =>
      obtain ⟨told, -, hy⟩ := Manager.exists_of_bind_eq_ok hstep
      cases hy
      exact ⟨rfl, rfl, rfl⟩
    | finish now index =>
      simp only [step] at hstep
      split at hstep
      · cases hstep
        exact ⟨rfl, rfl, rfl⟩
      · obtain ⟨x, -, hy⟩ := Manager.exists_of_bind_eq_ok hstep
        cases hy
        exact ⟨rfl, rfl, rfl⟩
  · exact .inr rfl

lemma joins_syncTurns (hes : ∀ e ∈ es, e.inLoop = true) :
    (∀ t ∈ (r.syncTurns es).head?, Drifts r t.before) ∧
      (∀ t ∈ r.syncTurns es, t.before.inConsensus = false) ∧
      (r.syncTurns es).IsChain fun t t' => Drifts t.after t'.before := by
  induction es generalizing r with
  | nil => simp [syncTurns]
  | cons e es ih =>
    obtain ⟨hhead, hlasts, hjoins⟩ :=
      @ih (r.next e) fun e' he' => hes e' (List.mem_cons_of_mem e he')
    by_cases hs : r.inConsensus = true
    · simp [syncTurns, hs]
    rw [Bool.not_eq_true] at hs
    by_cases hturn : ∃ now time rung, e = .turn now time rung
    · obtain ⟨now, time, rung, rfl⟩ := hturn
      have hturns : r.syncTurns (.turn now time rung :: es) =
          ⟨r, now, time, rung⟩ :: (r.next (.turn now time rung)).syncTurns es := by
        simp [syncTurns, hs]
      rw [hturns]
      refine ⟨fun t ht => ?_, fun t ht => ?_, List.isChain_cons.mpr ⟨hhead, hjoins⟩⟩
      · cases ht
        exact ⟨rfl, rfl, rfl⟩
      · rcases List.mem_cons.mp ht with rfl | ht
        · exact hs
        · exact hlasts t ht
    · have hturns : r.syncTurns (e :: es) = (r.next e).syncTurns es := by
        cases e with
        | turn now time rung => exact absurd ⟨now, time, rung, rfl⟩ hturn
        | _ => simp [syncTurns, hs]
      rw [hturns]
      refine ⟨fun t ht => ?_, hlasts, hjoins⟩
      rcases drifts_next (r := r) (hes e List.mem_cons_self)
        fun now time rung he => hturn ⟨now, time, rung, he⟩ with hdrifts | hended
      · have hrest := hhead t ht
        exact ⟨hrest.stage.trans hdrifts.stage, hrest.sync.trans hdrifts.sync,
          hrest.fastSync.trans hdrifts.fastSync⟩
      · have hnone : (r.next e).syncTurns es = [] := by
          cases es <;> simp [syncTurns, inConsensus, hended]
        rw [hnone] at ht
        cases ht

/-- The turns of a run are those of a fast sync, whatever happens in between. -/
theorem voyage_syncTurns (hstage : r.stage = .pausing) (hes : ∀ e ∈ es, e.inLoop = true) :
    Voyage r.sync.fastSyncRetries (r.syncTurns es) := by
  obtain ⟨hhead, hlasts, hjoins⟩ := joins_syncTurns hes
  refine ⟨fun t ht => ?_, hlasts, hjoins⟩
  have hdrifts := hhead t ht
  exact ⟨hdrifts.stage.trans hstage, congrArg SyncConfig.fastSyncRetries hdrifts.sync⟩

/-- A fast sync with `m` retries, whatever peers send meanwhile, whatever the pipeline answers and
however late. A turn asks for nothing but the block after the known chain height, and nobody but
another validator that is recorded above that. The known height never falls, and rises by one with
every block that was added. A turn that neither asks nor leads to another stage waits or takes up a
message. A fast sync that is over and is told the chain height switches itself off and leaves the
own height after the chain, as far as a word holds that, unless it was higher. Without a block that
was added there are at most `m + 1` requests in a row, so that the blocks that were added bound all
requests. With no peer recorded above a height, that height bounds the requests and the moves, so
that the fast sync ends. -/
theorem fast_sync_bounded {m : ℕ} {turns : List (Turn n)} (h : Voyage m turns) :
    (∀ pre t post, turns = pre ++ t :: post →
      let k := knownHeight pre
      let k' := knownHeight (pre ++ [t])
      let own := t.before.manager.own
      (∀ receiver height, .request receiver height ∈ t.entries → height = k' + 1 ∧
        ∃ i : Fin n, receiver = some i.val ∧ i ≠ t.before.manager.me ∧
          k' + 1 < (t.before.manager.statuses.get i).height) ∧
      k ≤ k' ∧ (t.before.news = .added → k' = k + 1) ∧
      (t.after.stage ≠ .ended →
        adds t.entries = if t.before.news = .added then 1 else 0) ∧
      (t.moves = false → t.before.Idle t.rung ∨
        ∃ f deadline, t.before.stage = .fetching f deadline ∧ t.before.inbox ≠ []) ∧
      ∀ timestamp last, t.before.stage = .finishing timestamp →
        t.before.answer?.bind Answer.chainHeight? = some last → own.inRange = true →
        own.serial + (Word.saturate (last.getD 0 + 1) - own.height : ℕ) ≤ Word.maxSigned →
          t.after.stage = .ready ∧ t.after.fastSync = false ∧
          t.after.manager.own.height = max own.height (Word.saturate (last.getD 0 + 1))) ∧
    (∀ row, row <:+: syncLog turns → .added ∉ row → row.length ≤ m + 1) ∧
    requests (syncLog turns) ≤ (adds (syncLog turns) + 1) * (m + 1) ∧
    ∀ top, (∀ t ∈ turns, ∀ i ≠ t.before.manager.me,
        (t.before.manager.statuses.get i).height ≤ top) →
      requests (syncLog turns) ≤ (top - 1) * (m + 1) ∧
        turns.countP Turn.moves ≤ 3 * ((top - 1) * (m + 1)) + 3 := by
  obtain ⟨⟨tries, htallied⟩, hmoves⟩ := h.tallied
  have hrequests : ∀ pre t post, turns = pre ++ t :: post → ∀ receiver height,
      .request receiver height ∈ t.entries → height = knownHeight (pre ++ [t]) + 1 ∧
        ∃ i : Fin n, receiver = some i.val ∧ i ≠ t.before.manager.me ∧
          knownHeight (pre ++ [t]) + 1 < (t.before.manager.statuses.get i).height := by
    intro pre t post hturns receiver height hr
    have hs := h.lasts t (by simp [hturns])
    rw [knownHeight_concat]
    exact (h.books_before hturns).ledger.request (Turn.passage hs).1 hr
  refine ⟨fun pre t post hturns => ?each, fun row hrow => htallied.length_le_of_infix hrow, ?total,
    fun top htop => ?bounded⟩
  case each =>
    have hs := h.lasts t (by simp [hturns])
    refine ⟨hrequests pre t post hturns, ?_, fun hadded => ?_, Turn.adds_entries hs, Turn.stays hs,
      fun timestamp last hstage hanswer hrange hserial => ?_⟩
    · rw [knownHeight_concat]
      exact t.before.news.le_after _
    · rw [knownHeight_concat, hadded]
      rfl
    · obtain ⟨hready, hflag, hheight⟩ := next_of_finishing hstage hanswer hrange hserial
      exact ⟨hready, hflag.trans ((h.books_before hturns).off timestamp hstage), hheight⟩
  case total =>
    calc requests (syncLog turns)
      _ ≤ adds (syncLog turns) * (m + 1) + tries := htallied.requests_le
      _ ≤ adds (syncLog turns) * (m + 1) + (m + 1) := Nat.add_le_add_left htallied.tries_le _
      _ = (adds (syncLog turns) + 1) * (m + 1) := (Nat.succ_mul _ _).symm
  case bounded =>
    have hheights : ∀ receiver height,
        .request receiver height ∈ syncLog turns → height ≤ top - 1 := by
      intro receiver height hr
      obtain ⟨t, ht, hr⟩ := List.mem_flatMap.mp hr
      obtain ⟨pre, post, hturns⟩ := List.append_of_mem ht
      obtain ⟨rfl, i, -, hne, habove⟩ := hrequests pre t post hturns receiver height hr
      have hle := htop t ht i hne
      omega
    have hle := htallied.requests_le_of_heights hheights
    exact ⟨hle, hmoves.trans (by omega)⟩

/-- Two of four validators are ahead, and a fast sync starts. -/
def leavingBehind : List Happening :=
  [1, 2].map (fun i => .message .zero i (.status (.fresh 5 1))) ++ [waking 0]

/-- A peer serves the first block, and nobody serves the second one. -/
def servingOne : List Happening :=
  let b := firstBlock 2000
  [waking 0, .work .zero, waking 0,
    .mail 1 (.completeBlock ⟨b, ⟨[1, 2, 3].map (signatureBy · b)⟩⟩ 1), waking 0, .work .zero,
    waking 0] ++ timingOut

/-- One block is added, the next one is asked for four times, and the fast sync ends at the height
after the block. -/
theorem fast_sync_bounded_one_added :
    let turns := ((start exampleValidator .zero).after leavingBehind).syncTurns servingOne
    requests (syncLog turns) = 5 ∧ requests (syncLog turns) ≤ (adds (syncLog turns) + 1) * (3 + 1) ∧
      adds (syncLog turns) = 1 ∧ turns.countP Turn.moves ≤ 3 * ((5 - 1) * (3 + 1)) + 3 ∧
      ∃ t ∈ turns.getLast?, t.before.manager.own.height = 1 ∧ t.after.stage = .ready ∧
        t.after.fastSync = false ∧ t.after.manager.own.height = 2 := by
  intro turns
  have hstart : ((start exampleValidator .zero).after leavingBehind).stage = .pausing ∧
      ((start exampleValidator .zero).after leavingBehind).sync.fastSyncRetries = 3 := by
    decide +kernel
  have hinside : ∀ e ∈ servingOne, e.inLoop = true := by decide +kernel
  have hvoyage : Voyage 3 turns := by
    have hturns := voyage_syncTurns hstart.1 hinside
    rwa [hstart.2] at hturns
  have hlog : requests (syncLog turns) = 5 ∧ adds (syncLog turns) = 1 ∧
      ∀ t ∈ turns, ∀ i ≠ t.before.manager.me, (t.before.manager.statuses.get i).height ≤ 5 := by
    decide +kernel
  have hlast : ∃ t ∈ turns.getLast?, t.before.stage = .finishing (some 2000) ∧
      t.before.answer?.bind Answer.chainHeight? = some (some 1) ∧
      t.before.manager.own = .fresh 1 0 := by
    decide +kernel
  obtain ⟨hrequests, hadds, htop⟩ := hlog
  obtain ⟨t, ht, hstage, hanswer, hown⟩ := hlast
  obtain ⟨pre, hturns⟩ := List.getLast?_eq_some_iff.mp ht
  obtain ⟨heach, -, hrows, hbound⟩ := fast_sync_bounded hvoyage
  obtain ⟨-, -, -, -, -, hfinish⟩ := heach pre t [] hturns
  obtain ⟨hready, hoff, hheight⟩ := hfinish (some 2000) (some 1) hstage hanswer
    (by rw [hown]; decide) (by rw [hown]; decide)
  refine ⟨hrequests, hrows, hadds, (hbound 5 htop).2, t, ht, by rw [hown]; rfl, hready, hoff, ?_⟩
  rw [hheight, hown]
  decide

end Runner

end Conclave

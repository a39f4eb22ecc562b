import Conclave.Proofs.CollectedSignatures
import Conclave.Proofs.ExecutorBeats
import Conclave.Proofs.SignatureEquivocation

/-!
# The commit signatures that a validator stores

Every stored signature verifies over the block in hand, fast sync or not. Whose it is, though, is
only looked at by the pipeline: the manager files it under the peer that sent it. As long as peers
send their own signatures, a quorum of stored ones is a quorum of signers, and no commit lacks any.
-/

namespace Conclave

variable {n : ℕ}

/-! ### What a manager stores -/

namespace Manager

variable {m x y : Manager n} {input : Input} {V : Rid → Fin n → Signature → Prop}

/-- The stored signatures are good over the block in hand: `V rid i s` says that `s` may be stored
for `i` over `rid`. -/
def Stores (V : Rid → Fin n → Signature → Prop) (m : Manager n) : Prop :=
  ∀ i s, m.signatures.get i = some s → ∃ rid, m.own.rid = some rid ∧ V rid i s

/-- The signatures that come with an input to validator `me` are good. -/
def Input.Delivers (V : Rid → Fin n → Signature → Prop) (me : Fin n) : Input → Prop
  | .commitSignature node rid s => ∀ i : Fin n, i.val = node → V rid i s
  | .received rid s | .built rid s => V rid me s
  | _ => True

lemma Becomes.stores {own : NodeStatus} {sigs : Table n (Option Signature)} {intent : Intent}
    (h : x.Becomes y own sigs intent)
    (hs : ∀ i s, sigs.get i = some s → ∃ rid, own.rid = some rid ∧ V rid i s) : y.Stores V := by
  unfold Stores
  rw [h.own_eq, h.signatures]
  exact hs

lemma stores_of_blank {own : NodeStatus} (i : Fin n) (s : Signature)
    (hs : (Vector.replicate n none : Table n (Option Signature)).get i = some s) :
    ∃ rid, own.rid = some rid ∧ V rid i s := by
  simp at hs

/-- A block that is dropped takes its signatures along. -/
lemma Stores.dropped (h : x.Stores V) (i : Fin n) (s : Signature)
    (hs : x.keptSignatures.get i = some s) :
    ∃ rid, (dropped x.own).rid = some rid ∧ V rid i s := by
  unfold keptSignatures at hs
  unfold Manager.dropped
  split at hs
  · exact stores_of_blank i s hs
  · rename_i hp
    rw [if_neg hp]
    exact h i s hs

lemma Stores.step (h : x.Stores V) (hs : x.step = some y) : y.Stores V := by
  cases stride_of_step hs with
  | catchUp _ _ _ becomes => exact becomes.stores h.dropped
  | nextRound _ _ _ becomes => exact becomes.stores h.dropped
  | await _ _ _ _ becomes => exact becomes.stores h
  | prepare _ _ _ _ becomes => exact becomes.stores h
  | commit _ _ _ _ becomes => exact becomes.stores h
  | gather _ _ _ _ _ _ _ becomes => exact becomes.stores h

lemma Stores.move (h : x.Stores V) (hi : input.Delivers V x.me) (hmove : Move input x y) :
    y.Stores V := by
  cases hmove with
  | rest => exact h
  | step hs => exact h.step hs
  | cutOff => exact (becomes_cutOff x).stores h
  | reject => exact (x.becomes_self.record _).stores h
  | setTime => exact h
  | hear i s told peer fresher =>
    unfold Stores
    rw [hear_own peer, hear_signatures]
    exact h
  | climb => exact (becomes_climb x).stores stores_of_blank
  | take rid signature wanted =>
    refine (becomes_take x rid signature).stores fun i s hs => ⟨rid, rfl, ?_⟩
    rw [Table.get_put] at hs
    split at hs
    · rename_i hme
      cases hs
      rw [← hme]
      rcases wanted with ⟨rfl, -⟩ | ⟨rfl, -⟩ <;> exact hi
    · simp at hs
  | collect i rid signature told phase held =>
    refine (becomes_collect x i signature).stores fun j s hs => ?_
    rw [Table.get_put] at hs
    split at hs
    · rename_i hij
      cases hs
      rw [told] at hi
      exact ⟨rid, held, hi j (congrArg Fin.val hij.symm)⟩
    · exact h j s hs
  | rebel => exact (becomes_rebel x).stores h

lemma Stores.respond (h : m.Stores V) (hi : input.Delivers V m.me) :
    (m.respond input).1.Stores V :=
  (respond_invariant (P := fun x => x.me = m.me ∧ x.Stores V) ⟨rfl, h⟩
    fun _ _ hmove hx => ⟨hmove.fixed.1.trans hx.1, hx.2.move (hx.1 ▸ hi) hmove⟩).2

lemma stores_start (config : Config) (me : Fin n) (height wallMillis : ℕ) :
    (start config me height wallMillis).Stores V :=
  start_invariant (P := Stores V) (fun _ => stores_of_blank)
    (fun _ _ hmove hx => hx.move (by trivial) hmove) (fun _ h => h) wallMillis

/-- From `m` to `m'` no block comes to hand, and what is stored stays good. -/
structure Mild (V : Rid → Fin n → Signature → Prop) (m m' : Manager n) : Prop where
  coherent : m'.Coherent
  me : m'.me = m.me
  stores : m'.Stores V
  steady : m'.own.phase ≠ .waitBlock → m.own.phase ≠ .waitBlock ∧ m'.own.rid = m.own.rid

lemma mild_refl (hm : m.Coherent) (h : m.Stores V) : Mild V m m :=
  ⟨hm, rfl, h, fun hp => ⟨hp, rfl⟩⟩

lemma mild_respond (hm : m.Coherent) (h : m.Stores V) (hi : input.Delivers V m.me)
    (ht : input.takes = false) : Mild V m (m.respond input).1 :=
  ⟨hm.respond input, (fixed_respond m input).1, h.respond hi, steady_respond input ht⟩

lemma Mild.waits {m' : Manager n} (h : Mild V m m') (hp : m.own.phase = .waitBlock) :
    m'.own.phase = .waitBlock := by
  by_contra hne
  exact (h.steady hne).1 hp

lemma delivers_of_isPlain (h : input.isPlain = true) (me : Fin n) : input.Delivers V me := by
  cases input <;> simp_all [Input.isPlain, Input.Delivers]

end Manager

/-! ### Tasks and answers -/

/-- Whether a task brings a block that may come to hand. -/
def Task.brings : Task → Bool
  | .build | .load _ => true
  | _ => false

lemma Task.isOperation_of_brings {t : Task} (h : t.brings = true) : t.isOperation = true := by
  cases t <;> first | rfl | cases h

/-- Whether a commit has failed for want of signers. -/
def Answer.lacksSigners : Answer Task → Bool
  | ⟨.commit .., .error cause⟩ => cause.lacksSigners
  | _ => false

lemma Answer.report_of_error {a : Answer Task} {cause : PipelineError}
    (h : a.result = .error cause) : a.report? = none := by
  unfold report?
  rw [h]

lemma Answer.brings_of_report {a : Answer Task} {input : Manager.Input}
    (h : a.report? = some input) : a.task.brings = input.takes := by
  obtain ⟨t, result⟩ := a
  cases result with
  | error cause => cases h
  | ok reply =>
    cases t with
    | build | load | add | commit =>
      cases h
      rfl
    | verify sender rid s =>
      simp only [report?, Task.report?] at h
      split at h
      · cases h
        rfl
      · cases h
    | serveBlock | serveSignature | chainHeight | fastAdd => cases h

/-- No task but one that brings a block leaves another one pending. -/
lemma Ran.shrinks {t : Task} {w w' : Worker (Engine n) (Builder n)}
    {result : Except PipelineError t.job.Reply} (h : Ran w t.job result w')
    (ht : t.brings = false ∨ ∃ cause, result = .error cause) :
    ∀ p, w'.builder.map Builder.block = some p → w.builder.map Builder.block = some p := by
  cases result with
  | error cause => exact h.of_error.2
  | ok reply =>
    have hno : t.brings = false := by simpa using ht
    cases t with
    | build | load => cases hno
    | add | fastAdd =>
      cases h with
      | added chain height builder => simp [builder]
    | commit =>
      cases h with
      | committed pending chain height builder => simp [builder]
    | verify =>
      cases h with
      | verified chain builder => exact fun p hp => builder ▸ hp
    | serveBlock =>
      cases h with
      | read worker => exact fun p hp => worker ▸ hp
    | serveSignature =>
      cases h with
      | signed worker => exact fun p hp => worker ▸ hp
    | chainHeight =>
      cases h with
      | measured worker => exact fun p hp => worker ▸ hp

/-- `s` is a signature over `rid`, and it is the own one if it is filed under the validator itself,
or else one that a peer has sent under the name it is filed under. -/
def Attested (keys : Keyring n) (me : Fin n) (heard : ℕ → Rid → Signature → Prop) (rid : Rid)
    (i : Fin n) (s : Signature) : Prop :=
  ∃ j, keys.verify s rid = .ok j ∧ ((i = me ∧ j = me) ∨ heard i rid s)

namespace Executor

variable {x y : Executor n} {keys : Keyring n} {me : Fin n} {heard : ℕ → Rid → Signature → Prop}
  {t : Task} {a : Answer Task}

/-- A task in the queue will find what it needs: a signature is verified over the pending block, and
a block is committed with signatures of a quorum over it. -/
def Expects (keys : Keyring n) (me : Fin n) (heard : ℕ → Rid → Signature → Prop) (x : Executor n) :
    Task → Prop
  | .build | .load _ => x.manager.own.phase = .waitBlock
  | .verify sender rid s => heard sender rid s ∧ ∀ p, x.pendingBlock = some p → p.rid = rid
  | .commit _ signatures => ∃ t : Table n (Option Signature), signatures = t.toList ∧
      quorum n ≤ Manager.filled t ∧ ∀ p, x.pendingBlock = some p →
        ∀ i s, t.get i = some s → Attested keys me heard p.rid i s
  | _ => True

/-- What an answer that waits is good for. -/
structure Accounts (keys : Keyring n) (me : Fin n) (heard : ℕ → Rid → Signature → Prop)
    (x : Executor n) (a : Answer Task) : Prop where
  waits : a.task.brings = true → x.manager.own.phase = .waitBlock
  delivers : ∀ input, a.report? = some input → input.Delivers (Attested keys me heard) me
  pending : ∀ input rid s, a.report? = some input →
    (input = .received rid s ∨ input = .built rid s) →
      ∀ p, x.pendingBlock = some p → p.rid = rid
  enough : (∀ rid i s, Attested keys me heard rid i s → keys.verify s rid = .ok i) →
    a.lacksSigners = false

/-- Every signature that the manager stores or the pipeline works on is attested over the block that
it is meant for. At most one operation is under way, so a block that is built or loaded finds the
manager waiting for it, and behind it no signature over another block waits to be verified. -/
structure Vouched (keys : Keyring n) (me : Fin n) (heard : ℕ → Rid → Signature → Prop)
    (x : Executor n) : Prop where
  coherent : x.manager.Coherent
  myself : x.manager.me = me
  stored : x.manager.Stores (Attested keys me heard)
  worker : x.pipeline.worker.Keyed keys me
  count : x.pipeline.queue.countP Task.isOperation +
    x.answers.countP (fun a => a.task.isOperation) = x.busy.toNat
  asking : ∀ rid, x.intent = .fetchUnfinishedBlock rid →
    x.busy = false ∧ x.manager.own.phase = .waitBlock
  pending : x.manager.own.phase ≠ .waitBlock →
    ∀ p, x.pendingBlock = some p → x.manager.own.rid = some p.rid
  queued : ∀ t ∈ x.pipeline.queue, x.Expects keys me heard t
  ordered : x.pipeline.queue.Pairwise fun t u =>
    t.brings = true → ∀ sender rid s, u ≠ .verify sender rid s
  answered : ∀ a ∈ x.answers, x.Accounts keys me heard a

/-! ### What a beat leaves as it is -/

lemma Expects.waits (h : x.Expects keys me heard t) (hb : t.brings = true) :
    x.manager.own.phase = .waitBlock := by
  cases t with
  | build | load => exact h
  | _ => cases hb

lemma Expects.mono (h : x.Expects keys me heard t)
    (hwaits : x.manager.own.phase = .waitBlock → y.manager.own.phase = .waitBlock)
    (hp : ∀ p, y.pendingBlock = some p → x.pendingBlock = some p) : y.Expects keys me heard t := by
  cases t with
  | build | load => exact hwaits h
  | verify sender rid s => exact ⟨h.1, fun p hy => h.2 p (hp p hy)⟩
  | commit b signatures =>
    obtain ⟨t, ht, hq, hs⟩ := h
    exact ⟨t, ht, hq, fun p hy => hs p (hp p hy)⟩
  | add | serveBlock | serveSignature | chainHeight | fastAdd => trivial

lemma Accounts.mono (h : x.Accounts keys me heard a)
    (hwaits : x.manager.own.phase = .waitBlock → y.manager.own.phase = .waitBlock)
    (hp : ∀ p, y.pendingBlock = some p → x.pendingBlock = some p) : y.Accounts keys me heard a :=
  ⟨fun hb => hwaits (h.waits hb), h.delivers,
    fun input rid s hr hi p hy => h.pending input rid s hr hi p (hp p hy), h.enough⟩

/-- An answer that is not about an operation does not depend on the block that is pending. -/
lemma Accounts.of_aside (h : x.Accounts keys me heard a) (ha : a.task.isOperation = false) :
    y.Accounts keys me heard a where
  waits hb := by
    rw [Task.isOperation_of_brings hb] at ha
    cases ha
  delivers := h.delivers
  pending input rid s hr hi := by
    have hb := Answer.brings_of_report hr
    have ht : input.takes = true := by rcases hi with rfl | rfl <;> rfl
    rw [Task.isOperation_of_brings (hb.trans ht)] at ha
    cases ha
  enough := h.enough

lemma accounts_refused (hwaits : t.brings = true → x.manager.own.phase = .waitBlock) :
    x.Accounts keys me heard ⟨t, .error .closed⟩ :=
  ⟨hwaits, by simp [Answer.report?], by simp [Answer.report?], fun _ => by cases t <;> rfl⟩

/-- Nothing but the books, a mild input and tasks that are ready have come along. -/
lemma Vouched.proceed (h : x.Vouched keys me heard)
    (manager : Manager.Mild (Attested keys me heard) x.manager y.manager)
    (worker : y.pipeline.worker.Keyed keys me)
    (pending : ∀ p, y.pendingBlock = some p → x.pendingBlock = some p)
    (count : y.pipeline.queue.countP Task.isOperation +
      y.answers.countP (fun a => a.task.isOperation) = y.busy.toNat)
    (asking : ∀ rid, y.intent = .fetchUnfinishedBlock rid →
      y.busy = false ∧ y.manager.own.phase = .waitBlock)
    (queued : ∀ t ∈ y.pipeline.queue, t ∈ x.pipeline.queue ∨ y.Expects keys me heard t)
    (ordered : y.pipeline.queue.Pairwise fun t u =>
      t.brings = true → ∀ sender rid s, u ≠ .verify sender rid s)
    (answered : ∀ a ∈ y.answers, a ∈ x.answers ∨ y.Accounts keys me heard a) :
    y.Vouched keys me heard where
  coherent := manager.coherent
  myself := manager.me.trans h.myself
  stored := manager.stores
  worker := worker
  count := count
  asking := asking
  pending hp p hy := by
    obtain ⟨hp', hr⟩ := manager.steady hp
    rw [hr]
    exact h.pending hp' p (pending p hy)
  queued t ht := by
    rcases queued t ht with hold | hnew
    · exact (h.queued t hold).mono manager.waits pending
    · exact hnew
  ordered := ordered
  answered a ha := by
    rcases answered a ha with hold | hnew
    · exact (h.answered a hold).mono manager.waits pending
    · exact hnew

lemma Vouched.mild_refl (h : x.Vouched keys me heard) :
    Manager.Mild (Attested keys me heard) x.manager x.manager :=
  Manager.mild_refl h.coherent h.stored

/-- The books and the intent are all that has changed. -/
lemma Vouched.books (h : x.Vouched keys me heard) {policy : BuildPolicy} {intent previous : Intent}
    {block : Option Block} {blockTime : Option Duration} {awaited : Bool} {effects : List Effect}
    (hintent : ∀ rid, intent = .fetchUnfinishedBlock rid →
      x.busy = false ∧ x.manager.own.phase = .waitBlock) :
    Vouched keys me heard
      { x with policy, intent, previous, block, blockTime, awaited, effects } :=
  h.proceed h.mild_refl h.worker (fun _ hp => hp) h.count hintent (fun _ ht => .inl ht) h.ordered
    fun _ ha => .inl ha

/-- The same executor with a worker that has no other pending block. -/
lemma Vouched.rework (h : x.Vouched keys me heard)
    {p : Pipeline (Engine n) (Builder n) Task} (hw : p.worker.Keyed keys me)
    (hq : p.queue = x.pipeline.queue)
    (hp : ∀ b, p.worker.builder.map Builder.block = some b → x.pendingBlock = some b) :
    Vouched keys me heard { x with pipeline := p } := by
  apply h.proceed (y := { x with pipeline := p }) h.mild_refl hw hp
  · rw [hq]
    exact h.count
  · exact h.asking
  · intro t ht
    rw [hq] at ht
    exact .inl ht
  · rw [hq]
    exact h.ordered
  · exact fun a ha => .inl ha

lemma Vouched.told (h : x.Vouched keys me heard) {input : Manager.Input}
    (hplain : input.isPlain = true) :
    Vouched keys me heard { x with manager := (x.manager.respond input).1 } := by
  have hmild := Manager.mild_respond h.coherent h.stored
    (Manager.delivers_of_isPlain hplain x.manager.me) (Manager.takes_of_isPlain hplain)
  refine h.proceed hmild h.worker (fun _ hp => hp) h.count (fun rid hi => ?_)
    (fun t ht => .inl ht) h.ordered (fun a ha => .inl ha)
  exact ⟨(h.asking rid hi).1, hmild.waits (h.asking rid hi).2⟩

/-! ### New tasks -/

/-- A task that is ready is handed to the pipeline. -/
lemma Vouched.submit (h : x.Vouched keys me heard) {busy : Bool} {intent : Intent}
    (hcount : x.busy.toNat + t.isOperation.toNat = busy.toNat)
    (hintent : ∀ rid, intent = .fetchUnfinishedBlock rid →
      busy = false ∧ x.manager.own.phase = .waitBlock)
    (hready : x.Expects keys me heard t)
    (hcheck : ∀ sender rid s, t = .verify sender rid s → x.manager.own.phase ≠ .waitBlock) :
    Vouched keys me heard ({ x with busy, intent }.submit t) := by
  have hworker := submit_worker { x with busy, intent } t
  have hpending : ({ x with busy, intent }.submit t).pendingBlock = x.pendingBlock := by
    unfold pendingBlock
    rw [hworker]
  refine h.proceed h.mild_refl ?_ (fun p hp => hpending ▸ hp) ?_ hintent (fun u hu => ?_) ?_
    fun a ha => ?_
  · rw [hworker]
    exact h.worker
  · rw [count_submit]
    exact (congrArg (· + t.isOperation.toNat) h.count).trans hcount
  · rcases mem_queue_submit hu with hold | rfl
    · exact .inl hold
    · exact .inr (hready.mono id fun p hp => hpending ▸ hp)
  · rcases submit_tasks { x with busy, intent } t with ⟨hq, -⟩ | ⟨hq, -⟩
    · rw [hq]
      refine List.pairwise_append.mpr ⟨h.ordered, List.pairwise_singleton _ _, ?_⟩
      intro u hu v hv hbrings sender rid s hverify
      rw [List.mem_singleton.mp hv] at hverify
      -- A block is brought only while the manager waits, and a signature checked while it does not.
      exact hcheck sender rid s hverify ((h.queued u hu).waits hbrings)
    · rw [hq]
      exact h.ordered
  · rcases mem_answers_submit ha with hold | rfl
    · exact .inl hold
    · exact .inr (accounts_refused hready.waits)

/-! ### Answers that are applied -/

lemma Vouched.count_perm (h : x.Vouched keys me heard) {answers : List (Answer Task)}
    (hperm : x.answers.Perm (a :: answers)) :
    x.pipeline.queue.countP Task.isOperation + answers.countP (fun a => a.task.isOperation) =
      (!a.task.isOperation && x.busy).toNat ∧ (a.task.isOperation = true → x.busy = true) := by
  have hx := h.count
  rw [hperm.countP_eq, List.countP_cons] at hx
  have hle := Bool.toNat_le x.busy
  cases ha : a.task.isOperation with
  | false =>
    rw [ha] at hx
    exact ⟨hx, by simp⟩
  | true =>
    rw [ha, if_pos rfl] at hx
    have hb : x.busy.toNat = 1 := by omega
    refine ⟨?_, fun _ => by simpa using hb⟩
    rw [Bool.not_true, Bool.false_and, Bool.toNat_false]
    omega

/-- An answer that brings no block leaves the manager mildly changed at most. -/
lemma Vouched.concluded (h : x.Vouched keys me heard) {answers : List (Answer Task)}
    {manager : Manager n} (hperm : x.answers.Perm (a :: answers))
    (hmild : Manager.Mild (Attested keys me heard) x.manager manager) :
    Vouched keys me heard { x with manager, answers, busy := !a.task.isOperation && x.busy } := by
  refine h.proceed hmild h.worker (fun _ hp => hp) (h.count_perm hperm).1 (fun rid hi => ?_)
    (fun t ht => .inl ht) h.ordered (fun b hb => .inl ?_)
  · obtain ⟨hidle, hwaits⟩ := h.asking rid hi
    exact ⟨by simp [hidle], hmild.waits hwaits⟩
  · exact hperm.mem_iff.mpr (List.mem_cons_of_mem _ hb)

/-- A block that comes to hand is the pending one; no other operation is left. -/
lemma Vouched.brought (h : x.Vouched keys me heard) {answers : List (Answer Task)}
    {input : Manager.Input} (hperm : x.answers.Perm (a :: answers))
    (hreport : a.report? = some input) (htakes : input.takes = true) :
    Vouched keys me heard
      { x with
        manager := (x.manager.respond input).1
        answers
        busy := !a.task.isOperation && x.busy } := by
  have haccounts := h.answered a (hperm.mem_iff.mpr List.mem_cons_self)
  have hbrings := (Answer.brings_of_report hreport).trans htakes
  have hop := Task.isOperation_of_brings hbrings
  obtain ⟨hcount, hbusy⟩ := h.count_perm hperm
  have hnone : x.pipeline.queue.countP Task.isOperation = 0 ∧
      answers.countP (fun a => a.task.isOperation) = 0 := by
    rw [hop] at hcount
    simpa using hcount
  obtain ⟨rid, s, hi⟩ : ∃ rid s, input = .received rid s ∨ input = .built rid s := by
    cases input with
    | received rid s => exact ⟨rid, s, .inl rfl⟩
    | built rid s => exact ⟨rid, s, .inr rfl⟩
    | _ => cases htakes
  refine {
    coherent := h.coherent.respond input
    myself := (Manager.fixed_respond _ input).1.trans h.myself
    stored := h.stored.respond ?stored
    worker := h.worker
    count := hcount
    asking := ?asking
    pending := ?pending
    queued := ?queued
    ordered := h.ordered
    answered := ?answered }
  case stored =>
    rw [h.myself]
    exact haccounts.delivers input hreport
  case asking =>
    intro r hr
    rw [(h.asking r hr).1] at hbusy
    cases hbusy hop
  case pending =>
    intro hp p hy
    have hrid := haccounts.pending input rid s hreport hi p hy
    rcases Manager.respond_block x.manager hi with hm | ⟨cause, hm⟩
    · simp only [hm] at hp ⊢
      rw [hrid]
      exact Manager.rid_of_taken hp
    · simp only [hm] at hp
      exact (hp (haccounts.waits hbrings)).elim
  case queued =>
    intro t ht
    have hno : t.isOperation = false := by simpa using List.countP_eq_zero.mp hnone.1 t ht
    have hexpects := h.queued t ht
    cases t with
    | build | load | add | commit => cases hno
    | verify => exact hexpects
    | serveBlock | serveSignature | chainHeight | fastAdd => trivial
  case answered =>
    intro b hb
    have hold := h.answered b (hperm.mem_iff.mpr (List.mem_cons_of_mem _ hb))
    exact hold.of_aside (by simpa using List.countP_eq_zero.mp hnone.2 b hb)

lemma Vouched.conclude (h : x.Vouched keys me heard) {answers : List (Answer Task)}
    {manager : Manager n} (hperm : x.answers.Perm (a :: answers))
    (htold : manager = x.manager ∨
      ∃ input, a.report? = some input ∧ manager = (x.manager.respond input).1) :
    Vouched keys me heard { x with manager, answers, busy := !a.task.isOperation && x.busy } := by
  rcases htold with rfl | ⟨input, hreport, rfl⟩
  · exact h.concluded hperm h.mild_refl
  · by_cases htakes : input.takes = true
    · exact h.brought hperm hreport htakes
    · have haccounts := h.answered a (hperm.mem_iff.mpr List.mem_cons_self)
      have hdelivers : input.Delivers (Attested keys me heard) x.manager.me := by
        rw [h.myself]
        exact haccounts.delivers input hreport
      exact h.concluded hperm
        (Manager.mild_respond h.coherent h.stored hdelivers (by simpa using htakes))

/-! ### The work of the pipeline -/

section Work

variable {order : BuildOrder} {p : Pipeline (Engine n) (Builder n) Task}
  (hkeys : Function.Injective fun i => (keys.get i).identity)
include hkeys

omit hkeys in
lemma Vouched.count_next (h : x.Vouched keys me heard) {queue : List Task}
    (hqueue : x.pipeline.queue = a.task :: queue) :
    queue.countP Task.isOperation + (x.answers ++ [a]).countP (fun a => a.task.isOperation) =
      x.busy.toNat := by
  have hx := h.count
  rw [hqueue, List.countP_cons] at hx
  rw [List.countP_append, List.countP_singleton]
  omega

lemma Vouched.keyed_of_next (h : x.Vouched keys me heard)
    (hnext : x.pipeline.next order = some (a, p)) : p.worker.Keyed keys me := by
  rcases Pipeline.next_worker hnext with ⟨hw, -⟩ | hrun
  · rw [hw]
    exact h.worker
  · have hkeyed := (h.worker.run hkeys order a.task.job).1
    rw [hrun] at hkeyed
    exact hkeyed

lemma Vouched.attests_of_next (h : x.Vouched keys me heard) {t : Task} {reply : t.job.Reply}
    (hnext : x.pipeline.next order = some (⟨t, .ok reply⟩, p)) :
    x.pipeline.worker.Attests keys me t.job reply := by
  rcases Pipeline.next_worker hnext with ⟨-, hclosed⟩ | hrun
  · cases hclosed
  · exact (h.worker.run hkeys order t.job).2 reply (congrArg Prod.fst hrun)

/-- An answer is as good as what its task was promised. -/
lemma Vouched.accounts (h : x.Vouched keys me heard) (hnext : x.pipeline.next order = some (a, p))
    (ha : a.task.brings = false ∨ ∃ cause, a.result = .error cause) (hy : y.manager = x.manager) :
    y.Accounts keys me heard a := by
  obtain ⟨hqueue, -⟩ := Pipeline.next_cases hnext
  have hexpects : x.Expects keys me heard a.task := h.queued a.task (by simp [hqueue])
  obtain ⟨t, result⟩ := a
  refine ⟨fun hb => ?_, fun input hreport => ?_, fun input rid s hreport hi => ?_, fun hown => ?_⟩
  · rw [hy]
    exact hexpects.waits hb
  · cases result with
    | error cause => cases hreport
    | ok reply =>
      have hattests := h.attests_of_next hkeys hnext
      cases t with
      | build | load => simp [Task.brings] at ha
      | add | commit =>
        cases hreport
        trivial
      | verify sender rid s =>
        simp only [Answer.report?, Task.report?] at hreport
        split at hreport
        · rename_i hvalid
          cases hreport
          obtain ⟨p, j, hp, hj⟩ := hattests hvalid
          intro i hi
          rw [hexpects.2 p hp] at hj
          exact ⟨j, hj, .inr (hi ▸ hexpects.1)⟩
        · cases hreport
      | serveBlock | serveSignature | chainHeight | fastAdd => cases hreport
  · have hb := Answer.brings_of_report hreport
    have htakes : input.takes = true := by rcases hi with rfl | rfl <;> rfl
    rcases ha with hno | ⟨cause, herror⟩
    · rw [hb, htakes] at hno
      cases hno
    · rw [Answer.report_of_error herror] at hreport
      cases hreport
  · cases t with
    | commit b signatures =>
      cases result with
      | ok reply => rfl
      | error cause =>
        obtain ⟨table, rfl, hq, hs⟩ := hexpects
        rcases Pipeline.next_worker hnext with ⟨-, hclosed⟩ | hrun
        · cases hclosed
          rfl
        · refine h.worker.lacksSigners_of_commit hkeys hq (fun b hb i s hi => ?_)
            (congrArg Prod.fst hrun)
          exact hown _ i s (hs b.block (by simp [pendingBlock, hb]) i s hi)
    | _ => rfl

/-- The pipeline has built or loaded a block, which is pending now. -/
lemma Vouched.work_bringing (h : x.Vouched keys me heard)
    (hnext : x.pipeline.next order = some (a, p)) {input : Manager.Input} {b : Block}
    (hreport : a.report? = some input)
    (hi : input = .received b.rid ((keys.get me).sign b.rid) ∨
      input = .built b.rid ((keys.get me).sign b.rid))
    (hpending : p.worker.builder.map Builder.block = some b) :
    Vouched keys me heard { x with pipeline := p, answers := x.answers ++ [a] } := by
  obtain ⟨hqueue, -⟩ := Pipeline.next_cases hnext
  have htakes : input.takes = true := by rcases hi with rfl | rfl <;> rfl
  have hbrings : a.task.brings = true := (Answer.brings_of_report hreport).trans htakes
  have hop := Task.isOperation_of_brings hbrings
  have hwaits := (h.queued a.task (by simp [hqueue])).waits hbrings
  have hcount := h.count
  rw [hqueue, List.countP_cons, if_pos hop] at hcount
  have hle := Bool.toNat_le x.busy
  have hordered := List.pairwise_cons.mp (hqueue ▸ h.ordered)
  refine {
    coherent := h.coherent
    myself := h.myself
    stored := h.stored
    worker := h.keyed_of_next hkeys hnext
    count := h.count_next hqueue
    asking := h.asking
    pending := fun hp => absurd hwaits hp
    queued := ?queued
    ordered := hordered.2
    answered := ?answered }
  case queued =>
    intro t ht
    have hno : t.isOperation = false := by
      have hzero : p.queue.countP Task.isOperation = 0 := by omega
      simpa using List.countP_eq_zero.mp hzero t ht
    cases t with
    | build | load | add | commit => cases hno
    | verify sender rid s => exact (hordered.1 _ ht hbrings sender rid s rfl).elim
    | serveBlock | serveSignature | chainHeight | fastAdd => trivial
  case answered =>
    intro c hc
    rcases List.mem_append.mp hc with hold | hnew
    · have hno : c.task.isOperation = false := by
        have hzero : x.answers.countP (fun a => a.task.isOperation) = 0 := by omega
        simpa using List.countP_eq_zero.mp hzero c hold
      exact (h.answered c hold).of_aside hno
    · rw [List.mem_singleton.mp hnew]
      refine ⟨fun _ => hwaits, fun input' hr => ?_, fun input' rid s hr hi' q hq => ?_, fun _ => ?_⟩
      · cases hreport.symm.trans hr
        have hattested : Attested keys me heard b.rid me ((keys.get me).sign b.rid) :=
          ⟨me, Keyring.verify_sign hkeys me b.rid, .inl ⟨rfl, rfl⟩⟩
        rcases hi with rfl | rfl <;> exact hattested
      · cases hreport.symm.trans hr
        have hqb : q = b := by
          change p.worker.builder.map Builder.block = some q at hq
          rw [hpending] at hq
          exact (Option.some.inj hq).symm
        rw [hqb]
        rcases hi with rfl | rfl <;> rcases hi' with hi' | hi' <;> cases hi' <;> rfl
      · revert hbrings
        obtain ⟨t, result⟩ := a
        cases t <;> intro hbrings <;> first | rfl | cases hbrings

lemma Vouched.work (h : x.Vouched keys me heard) (hnext : x.pipeline.next order = some (a, p)) :
    Vouched keys me heard { x with pipeline := p, answers := x.answers ++ [a] } := by
  obtain ⟨hqueue, hran⟩ := Pipeline.next_cases hnext
  by_cases ha : a.task.brings = false ∨ ∃ cause, a.result = .error cause
  · refine h.proceed h.mild_refl (h.keyed_of_next hkeys hnext) (hran.shrinks ha)
      (h.count_next hqueue) h.asking (fun t ht => .inl ?_) ?_ fun c hc => ?_
    · rw [hqueue]
      exact List.mem_cons_of_mem _ ht
    · exact (List.pairwise_cons.mp (hqueue ▸ h.ordered)).2
    · rcases List.mem_append.mp hc with hold | hnew
      · exact .inl hold
      · rw [List.mem_singleton.mp hnew]
        exact .inr (h.accounts hkeys hnext ha rfl)
  · obtain ⟨t, result⟩ := a
    cases result with
    | error cause => exact (ha (.inr ⟨cause, rfl⟩)).elim
    | ok reply =>
      have hattests := h.attests_of_next hkeys hnext
      cases t with
      | build =>
        obtain ⟨b, s⟩ := reply
        cases hran with
        | built chain height builder =>
          obtain rfl : s = (keys.get me).sign b.rid := hattests
          exact h.work_bringing hkeys hnext rfl (.inr rfl) builder
      | load b =>
        cases hran with
        | loaded chain height builder =>
          obtain rfl : reply = (keys.get me).sign b.rid := hattests
          exact h.work_bringing hkeys hnext rfl (.inl rfl) builder
      | _ => exact (ha (.inl rfl)).elim

end Work

/-! ### Every beat -/

lemma Vouched.exit (h : x.Vouched keys me heard) :
    Vouched keys me heard { x with pipeline := x.pipeline.exit } := by
  have hcalm := calm_exit x
  refine h.rework ?_ hcalm.queue hcalm.pendingBlock
  unfold Pipeline.exit
  split
  · exact ⟨h.worker.abandon.engine, h.worker.abandon.builder⟩
  · exact h.worker

lemma Vouched.committing (h : x.Vouched keys me heard) {b : Block}
    (hi : x.manager.intent = .commitBlock) :
    x.Expects keys me heard (.commit b x.manager.signatures.toList) := by
  have hp := h.coherent.prepared_of_committing hi
  refine ⟨x.manager.signatures, rfl, h.coherent.signed_of_committing hp hi, fun p hy i s hs => ?_⟩
  obtain ⟨rid, hr, hattested⟩ := h.stored i s hs
  rw [h.pending (by simp [hp]) p hy] at hr
  rw [Option.some.inj hr]
  exact hattested

/-- An operation that the intent calls for is ready. -/
lemma Vouched.ready (h : x.Vouched keys me heard) (hwanted : x.Wants t) :
    x.Expects keys me heard t := by
  cases t with
  | build => exact h.coherent.waits_to_take (.inr hwanted)
  | load b => exact (h.asking b.rid hwanted).2
  | commit b signatures =>
    obtain ⟨hi, -, rfl⟩ := hwanted
    exact h.committing hi
  | add => trivial
  | verify | serveBlock | serveSignature | chainHeight | fastAdd => cases hwanted

theorem Vouched.beat (hkeys : Function.Injective fun i => (keys.get i).identity)
    (h : x.Vouched keys me heard) (hbeat : Beat heard x y) : y.Vouched keys me heard := by
  cases hbeat with
  | books => exact h.books h.asking
  | rest => exact h.books (by simp)
  | follow idle =>
    exact h.books fun rid hi => ⟨idle, h.coherent.waits_to_take (.inl ⟨rid, hi⟩)⟩
  | tell input plain => exact h.told plain
  | ask t aside other =>
    refine h.submit (by simp [aside]) h.asking ?_ fun sender rid s ht => (other sender rid s ht).elim
    cases t with
    | build | load | add | commit => cases aside
    | verify sender rid s => exact (other sender rid s rfl).elim
    | serveBlock | serveSignature | chainHeight | fastAdd => trivial
  | check sender rid s prepared sent =>
    have hp : x.manager.own.phase ≠ .waitBlock := by simp [prepared.1]
    change Vouched keys me heard ({ x with busy := x.busy, intent := x.intent }.submit _)
    refine h.submit rfl h.asking ⟨sent, fun p hy => ?_⟩ fun _ _ _ _ => hp
    have hr := h.pending hp p hy
    rw [prepared.2] at hr
    exact (Option.some.inj hr).symm
  | operate t operation idle wanted =>
    refine h.submit (by simp [operation, idle]) (by simp) (h.ready wanted) fun sender rid s ht => ?_
    rw [ht] at operation
    cases operation
  | work next => exact h.work hkeys next
  | exit => exact h.exit
  | stop => exact h.rework h.worker rfl fun _ hp => hp
  | supply => exact h.rework ⟨h.worker.engine, h.worker.builder⟩ rfl fun _ hp => hp
  | conclude answered told => exact h.conclude answered told

end Executor

namespace Runner

variable {v : Validator n} {config : Config} {engine : Engine n} {height wallMillis : ℕ}
  {policy : BuildPolicy} {es : List Happening}

/-! ### Whole runs -/

lemma vouched_start (hv : v.toExecutor =
      { manager := .start config engine.me height wallMillis, policy,
        pipeline := ⟨⟨engine, none⟩, [], false, false, 0⟩ })
    (time : Duration) (heard : ℕ → Rid → Signature → Prop) :
    (start v time).toExecutor.Vouched engine.keys engine.me heard := by
  have hwaits := Manager.waits_start config engine.me height wallMillis
  have hfresh : v.toExecutor.Vouched engine.keys engine.me heard := by
    rw [hv]
    exact {
      coherent := Manager.coherent_start config engine.me height wallMillis
      myself := (Manager.fixed_start config engine.me height wallMillis).1
      stored := Manager.stores_start config engine.me height wallMillis
      worker := ⟨⟨rfl, rfl⟩, fun b hb => by cases hb⟩
      count := rfl
      asking := fun rid hi => by cases hi
      pending := fun hp => absurd hwaits hp
      queued := fun t ht => by cases ht
      ordered := List.Pairwise.nil
      answered := fun a ha => by cases ha }
  exact hfresh.books hfresh.asking

/-- In every run, whatever the peers send, all that a validator stores is over the block in hand:
it is the own signature, or a valid one that a peer has sent under the name it is filed under. -/
theorem vouched_of_mem_trail (hv : v.toExecutor =
      { manager := .start config engine.me height wallMillis, policy,
        pipeline := ⟨⟨engine, none⟩, [], false, false, 0⟩ })
    (hkeys : Function.Injective fun i => (engine.keys.get i).identity) (time : Duration) :
    ∀ x ∈ (start v time).trail es, x.toExecutor.Vouched engine.keys engine.me (Heard es) := by
  intro x hx
  exact (beats_trail (attentive_start v time) (fun _ _ _ hs => hs) x hx).invariant
    (fun _ _ hbeat h => h.beat hkeys hbeat) (vouched_start hv time _)

/-- As long as every peer sends signatures of its own only, each stored one is over the block in
hand and by the validator that it is filed under. At the intent to commit, a quorum of validators
has signed, and no commit fails for want of signers. -/
theorem quorum_of_signers (hv : v.toExecutor =
      { manager := .start config engine.me height wallMillis, policy,
        pipeline := ⟨⟨engine, none⟩, [], false, false, 0⟩ })
    (hkeys : Function.Injective fun i => (engine.keys.get i).identity) (time : Duration)
    (hown : ∀ e ∈ es, ∀ (i : Fin n) rid s, e.signature? = some (i.val, rid, s) →
      s.signer = (engine.keys.get i).identity) :
    ∀ x ∈ (start v time).trail es,
      (∀ i s, x.manager.signatures.get i = some s →
        ∃ rid, x.manager.own.rid = some rid ∧ engine.keys.verify s rid = .ok i) ∧
      (x.manager.intent = .commitBlock → ∃ rid, x.manager.own.rid = some rid ∧
        ∃ signers : Finset (Fin n), quorum n ≤ signers.card ∧ ∀ i ∈ signers,
          ∃ s, x.manager.signatures.get i = some s ∧ engine.keys.verify s rid = .ok i) ∧
      ∀ a ∈ x.answers, a.lacksSigners = false := by
  intro x hx
  have h := vouched_of_mem_trail hv hkeys time x hx
  have hself : ∀ rid i s, Attested engine.keys engine.me (Heard es) rid i s →
      engine.keys.verify s rid = .ok i := by
    rintro rid i s ⟨j, hj, ⟨rfl, rfl⟩ | ⟨e, he, hs⟩⟩
    · exact hj
    · exact Keyring.verify_of_signer hkeys hj (hown e he i rid s hs)
  have hstored : ∀ i s, x.manager.signatures.get i = some s →
      ∃ rid, x.manager.own.rid = some rid ∧ engine.keys.verify s rid = .ok i := fun i s hs => by
    obtain ⟨rid, hr, hattested⟩ := h.stored i s hs
    exact ⟨rid, hr, hself rid i s hattested⟩
  refine ⟨hstored, fun hi => ?_, fun a ha => (h.answered a ha).enough hself⟩
  have hp := h.coherent.prepared_of_committing hi
  obtain ⟨rid, hr⟩ := h.coherent.exists_rid (by simp [hp])
  have hq := h.coherent.signed_of_committing hp hi
  rw [Manager.signed_eq_card] at hq
  refine ⟨rid, hr, _, hq, fun i hi => ?_⟩
  obtain ⟨s, hs⟩ := Option.isSome_iff_exists.mp (Finset.mem_filter.mp hi).2
  obtain ⟨rid', hr', hverify⟩ := hstored i s hs
  obtain rfl : rid = rid' := Option.some.inj (hr.symm.trans hr')
  exact ⟨s, hs, hverify⟩

lemma injective_exampleKeys : Function.Injective fun i => (exampleKeys.get i).identity := by
  intro i j
  revert i j
  decide

/-- Two peers send their own signatures, and the block is committed with a quorum of signers. -/
theorem quorum_of_signers_committed :
    let trail := (start exampleValidator .zero).trail committingRun
    (∃ x ∈ trail, x.manager.intent = .commitBlock ∧ ∃ rid, x.manager.own.rid = some rid ∧
      ∃ signers : Finset (Fin 4), quorum 4 ≤ signers.card ∧ ∀ i ∈ signers,
        ∃ s, x.manager.signatures.get i = some s ∧ exampleKeys.verify s rid = .ok i) ∧
      (∃ x ∈ trail, x.chain.height = 1) ∧ ∀ x ∈ trail, ∀ a ∈ x.answers, a.lacksSigners = false := by
  intro trail
  let engine : Engine 4 := { me := 0, keys := exampleKeys }
  have hv : exampleValidator.toExecutor =
      { manager := .start {} engine.me 1 0, policy := { config := {}, lastBlock := .zero },
        pipeline := ⟨⟨engine, none⟩, [], false, false, 0⟩ } := rfl
  have hsigned : ∀ e ∈ committingRun, ∀ told ∈ e.signature?, ∀ i : Fin 4, told.1 = i.val →
      told.2.2.signer = (exampleKeys.get i).identity := by decide +kernel
  have hown : ∀ e ∈ committingRun, ∀ (i : Fin 4) rid s, e.signature? = some (i.val, rid, s) →
      s.signer = (engine.keys.get i).identity := fun e he i rid s hs => hsigned e he _ hs i rfl
  have hall := quorum_of_signers hv injective_exampleKeys .zero hown
  have hcommits : ∃ x ∈ trail, x.manager.intent = .commitBlock := by decide +kernel
  have hgrows : ∃ x ∈ trail, x.chain.height = 1 := by decide +kernel
  obtain ⟨x, hx, hi⟩ := hcommits
  exact ⟨⟨x, hx, hi, (hall x hx).2.1 hi⟩, hgrows, fun y hy => (hall y hy).2.2⟩

/-- A peer sends a signature, which is verified. -/
def relaying (sender : ℕ) (s : Signature) (b : Block) : List Happening :=
  [.message .zero sender (.blockSignature b.rid s), .work .zero, .finish .zero 0]

/-- Two peers send the receiver's own signature back, which it hands out to anyone that asks. They
are filed under their names, and the validator wants to commit with three signatures by one signer.
The commit fails for want of signers. -/
theorem relayed_signatures_fill_quorum :
    let b := firstBlock 1000
    let own := exampleSignature 0 b
    let trail := (start exampleValidator .zero).trail (handingOver 1 1 0 b ++ [holding 2 1 0 b] ++
      relaying 1 own b ++ relaying 2 own b ++ [.work .zero])
    ∃ x ∈ trail, x.manager.intent = .commitBlock ∧ x.manager.own.rid = some b.rid ∧
      x.manager.signatures.toList = [some own, some own, some own, none] ∧
      exampleKeys.verify own b.rid = .ok 0 ∧ x.answers.any Answer.lacksSigners = true := by
  decide +kernel

end Runner

end Conclave

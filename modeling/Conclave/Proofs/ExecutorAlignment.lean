import Conclave.Executor
import Conclave.Proofs.InputEffects

/-!
# The executor keeps manager and chain aligned

At most one operation is under way at a time, and what it is fits the phase of the status manager.
While none is, the own height is the one after the chain. A prepared block is the block at hand, and
the only one that the pipeline can commit. Fast sync is left out: it moves the chain on its own.
-/

namespace Conclave

/-! ### Chains -/

/-- The chain has a block with this reference at `height`. -/
def Chain.Has (c : Chain) (height : ℕ) (rid : Rid) : Prop :=
  ∃ b, c.blockAt height = some b ∧ b.rid = rid

/-- The blocks know their heights, and own signatures are kept over blocks of the chain only. So it
is in every chain that has grown block by block. -/
structure Chain.Sound (c : Chain) : Prop where
  height : ∀ height b, c.blockAt height = some b → b.block.height = height
  own : ∀ rid s, c.signatureOf rid = some s → ∃ height, c.Has height rid

namespace Chain

variable {c : Chain} {b : SealedBlock} {own : Signature}

lemma le_height_of_blockAt {height : ℕ} (h : c.blockAt height = some b) :
    0 < height ∧ height ≤ c.height := by
  unfold blockAt at h
  split at h
  · cases h
  · obtain ⟨hlt, -⟩ := List.getElem?_eq_some_iff.mp h
    unfold Chain.height
    omega

lemma Has.append {height : ℕ} {rid : Rid} (h : c.Has height rid) :
    (c.append b own).Has height rid := by
  obtain ⟨b', hb, hr⟩ := h
  exact ⟨b', by rw [blockAt_append_of_le (le_height_of_blockAt hb).2, hb], hr⟩

lemma blockAt_append_self : (c.append b own).blockAt (c.height + 1) = some b := by
  simp [blockAt, append, Chain.height]

lemma Sound.append (h : c.Sound) (hb : b.block.height = c.height + 1) :
    (c.append b own).Sound where
  height k b' hk := by
    have hle := (le_height_of_blockAt hk).2
    rw [height_append] at hle
    by_cases hlt : k ≤ c.height
    · rw [blockAt_append_of_le hlt] at hk
      exact h.height k b' hk
    · obtain rfl : k = c.height + 1 := by omega
      rw [blockAt_append_self] at hk
      cases hk
      exact hb
  own rid s hs := by
    unfold signatureOf Chain.append at hs
    rw [List.lookup_cons] at hs
    split at hs
    · rename_i heq
      exact ⟨_, b, blockAt_append_self, (beq_iff_eq.mp heq).symm⟩
    · obtain ⟨k, hk⟩ := h.own rid s hs
      exact ⟨k, hk.append⟩

lemma sound_empty : Chain.empty.Sound where
  height k b hk := by
    have hle := le_height_of_blockAt hk
    simp [empty, Chain.height] at hle
    omega
  own rid s hs := by simp [empty, signatureOf] at hs

end Chain

/-- The block over which an effect sends a signature. -/
def Effect.signs? : Effect → Option Rid
  | .send _ (.blockSignature rid _) => some rid
  | _ => none

namespace Executor

open Manager (PreparedOn Gentle)

variable {n : ℕ} {x y z : Executor n}

def chain (x : Executor n) : Chain := x.engine.chain

/-- The block that the pipeline could commit. -/
def pendingBlock (x : Executor n) : Option Block := x.pipeline.worker.builder.map Builder.block

/-- The blocks over which signatures were sent, newest first. -/
def said (x : Executor n) : List Rid := x.effects.filterMap Effect.signs?

/-! ### Alignment -/

/-- The own height is the one after the chain. -/
def Level (x : Executor n) : Prop := x.manager.own.height = x.chain.height + 1

/-- The manager is ready for the operation, which has not been run. -/
def Fit (x : Executor n) : Task → Prop
  | .build | .load _ => x.manager.own.phase = .waitBlock
  | .add _ height => x.manager.own.phase = .waitBlock ∧ height = x.manager.own.height
  | .commit b _ => x.manager.PreparedOn b.rid
  | _ => True

/-- A block was built or loaded for a manager that waits for it. -/
structure Staged (x : Executor n) (b : Block) : Prop where
  waits : x.manager.own.phase = .waitBlock
  level : x.Level
  height : b.height = x.chain.height + 1
  pending : ∀ p, x.pendingBlock = some p → p.rid = b.rid

/-- What a task has brought about, while its answer waits. -/
def Reached (x : Executor n) : (t : Task) → t.job.Reply → Prop
  | .build, (b, _) => x.Staged b
  | .load b, _ => x.Staged b
  | .add _ height, _ =>
    x.manager.own.phase = .waitBlock ∧ height = x.manager.own.height ∧
      x.chain.height = x.manager.own.height
  | .commit b _, _ =>
    x.manager.PreparedOn b.rid ∧ x.chain.height = x.manager.own.height ∧
      x.chain.Has x.manager.own.height b.rid
  | .serveSignature _ rid, (found : Option Signature) =>
    found ≠ none → ∃ height, x.chain.Has height rid
  | _, _ => True

/-- An answer is the truth about its task; an operation that failed has changed nothing. -/
def Outcome (x : Executor n) (a : Answer Task) : Prop :=
  match a.result with
  | .ok reply => x.Reached a.task reply
  | .error _ => a.task.isOperation = true → x.Level ∧ x.Fit a.task

/-- At most one operation is under way, and it fits the manager. While none is, manager and chain
are level. A block that is not waited for any more is in hand, and nothing else can be committed. -/
structure Aligned (x : Executor n) : Prop where
  coherent : x.manager.Coherent
  inRange : x.manager.own.height ≤ Word.maxUnsigned
  count : x.pipeline.queue.countP Task.isOperation +
    x.answers.countP (fun a => a.task.isOperation) = x.busy.toNat
  level : x.busy = false → x.Level
  queued : ∀ t ∈ x.pipeline.queue, t.isOperation = true → x.Level ∧ x.Fit t
  answered : ∀ a ∈ x.answers, x.Outcome a
  noFastAdd : ∀ b, .fastAdd b ∉ x.pipeline.queue
  held : x.manager.own.phase ≠ .waitBlock →
    ∃ b, x.block = some b ∧ x.manager.own.rid = some b.rid ∧ b.height = x.manager.own.height
  pending : x.manager.own.phase ≠ .waitBlock →
    ∀ p, x.pendingBlock = some p → x.manager.own.rid = some p.rid
  asking : ∀ rid, x.intent = .fetchUnfinishedBlock rid →
    x.busy = false ∧ x.manager.own.phase = .waitBlock
  catchingUp : ∀ height, x.intent = .fetchBlockAtHeight height →
    x.busy = false ∧ x.manager.own.phase = .waitBlock ∧ height = x.manager.own.height
  sound : x.chain.Sound

/-- The validator is prepared on `rid` at `height`, or has it in its chain there. -/
def Bound (x : Executor n) (height : ℕ) (rid : Rid) : Prop :=
  (x.manager.own.height = height ∧ x.manager.PreparedOn rid) ∨ x.chain.Has height rid

/-- `y` is aligned and bound to what `x` was bound to, and no signature was sent in between. -/
structure Leads (x y : Executor n) : Prop where
  aligned : y.Aligned
  bound : ∀ height rid, x.Bound height rid → y.Bound height rid
  said : y.said = x.said

lemma Aligned.leads (h : x.Aligned) : Leads x x := ⟨h, fun _ _ hb => hb, rfl⟩

lemma Leads.trans (h : Leads x y) (h' : Leads y z) : Leads x z :=
  ⟨h'.aligned, fun k r hb => h'.bound k r (h.bound k r hb), h'.said.trans h.said⟩

/-! ### What alignment rests on -/

/-- `y` stands where `x` did: a gentle manager, the same chain and no other pending block. -/
structure Footing (x y : Executor n) : Prop where
  manager : Gentle x.manager y.manager
  chain : y.chain = x.chain
  pendingBlock : ∀ p, y.pendingBlock = some p → x.pendingBlock = some p

namespace Footing

lemma level (h : Footing x y) (hx : x.Level) : y.Level := by
  unfold Level
  rw [h.manager.height, h.chain]
  exact hx

lemma fit (h : Footing x y) {t : Task} (ht : x.Fit t) : y.Fit t := by
  cases t with
  | build => exact h.manager.waits ht
  | load b => exact h.manager.waits ht
  | add b height => exact ⟨h.manager.waits ht.1, by rw [h.manager.height]; exact ht.2⟩
  | commit b signatures => exact h.manager.lock b.rid ht
  | verify | serveBlock | serveSignature | chainHeight | fastAdd => trivial

lemma staged (h : Footing x y) {b : Block} (hb : x.Staged b) : y.Staged b where
  waits := h.manager.waits hb.waits
  level := h.level hb.level
  height := by
    rw [h.chain]
    exact hb.height
  pending p hy := hb.pending p (h.pendingBlock p hy)

lemma reached (h : Footing x y) {t : Task} {reply : t.job.Reply} (hr : x.Reached t reply) :
    y.Reached t reply := by
  cases t with
  | build => exact h.staged hr
  | load b => exact h.staged hr
  | add b height =>
    obtain ⟨hp, hh, hc⟩ := hr
    refine ⟨h.manager.waits hp, ?_, ?_⟩
    · rw [h.manager.height]
      exact hh
    · rw [h.chain, h.manager.height]
      exact hc
  | commit b signatures =>
    obtain ⟨hp, hc, hhas⟩ := hr
    refine ⟨h.manager.lock b.rid hp, ?_, ?_⟩
    · rw [h.chain, h.manager.height]
      exact hc
    · rw [h.chain, h.manager.height]
      exact hhas
  | serveSignature receiver rid =>
    intro hfound
    rw [h.chain]
    exact hr hfound
  | verify | serveBlock | chainHeight | fastAdd => trivial

lemma outcome (h : Footing x y) {a : Answer Task} (ha : x.Outcome a) : y.Outcome a := by
  obtain ⟨t, result⟩ := a
  cases result with
  | ok reply => exact h.reached ha
  | error cause => exact fun ht => ⟨h.level (ha ht).1, h.fit (ha ht).2⟩

lemma bound (h : Footing x y) {height : ℕ} {rid : Rid} (hb : x.Bound height rid) :
    y.Bound height rid := by
  rcases hb with ⟨hh, hp⟩ | hc
  · exact .inl ⟨h.manager.height.trans hh, h.manager.lock rid hp⟩
  · right
    rw [h.chain]
    exact hc

/-- An executor that stands where it did stays aligned if its books are right: what is new in the
queue is no operation, and what is new among the answers is true. -/
lemma leads (h : Footing x y) (hx : x.Aligned) (busy : y.busy = x.busy) (block : y.block = x.block)
    (intent : y.intent = x.intent) (said : y.said = x.said)
    (count : y.pipeline.queue.countP Task.isOperation +
      y.answers.countP (fun a => a.task.isOperation) = y.busy.toNat)
    (queue : ∀ t ∈ y.pipeline.queue,
      t ∈ x.pipeline.queue ∨ (t.isOperation = false ∧ ∀ b, t ≠ .fastAdd b))
    (answers : ∀ a ∈ y.answers, a ∈ x.answers ∨ y.Outcome a) : Leads x y where
  aligned := by
    refine {
      coherent := h.manager.coherent hx.coherent
      inRange := ?inRange
      count := count
      level := fun hb => h.level (hx.level (busy ▸ hb))
      queued := ?queued
      answered := ?answered
      noFastAdd := ?noFastAdd
      held := ?held
      pending := ?pending
      asking := ?asking
      catchingUp := ?catchingUp
      sound := ?sound }
    case inRange =>
      rw [h.manager.height]
      exact hx.inRange
    case queued =>
      intro t ht hop
      rcases queue t ht with hold | ⟨hno, -⟩
      · obtain ⟨hl, hf⟩ := hx.queued t hold hop
        exact ⟨h.level hl, h.fit hf⟩
      · rw [hno] at hop
        cases hop
    case answered =>
      intro a ha
      rcases answers a ha with hold | hnew
      · exact h.outcome (hx.answered a hold)
      · exact hnew
    case noFastAdd =>
      intro b hb
      rcases queue _ hb with hold | ⟨-, hnew⟩
      · exact hx.noFastAdd b hold
      · exact hnew b rfl
    case held =>
      intro hp
      obtain ⟨hp', hr⟩ := h.manager.steady hp
      rw [block, hr, h.manager.height]
      exact hx.held hp'
    case pending =>
      intro hp p hy
      obtain ⟨hp', hr⟩ := h.manager.steady hp
      rw [hr]
      exact hx.pending hp' p (h.pendingBlock p hy)
    case asking =>
      intro rid hi
      rw [intent] at hi
      obtain ⟨hb, hp⟩ := hx.asking rid hi
      exact ⟨busy.trans hb, h.manager.waits hp⟩
    case catchingUp =>
      intro height hi
      rw [intent] at hi
      obtain ⟨hb, hp, hh⟩ := hx.catchingUp height hi
      exact ⟨busy.trans hb, h.manager.waits hp, hh.trans h.manager.height.symm⟩
    case sound =>
      rw [h.chain]
      exact hx.sound
  bound _ _ := h.bound
  said := said

end Footing

/-- `y` differs from `x` at most by a gentle input and in its books. -/
structure Calm (x y : Executor n) : Prop extends Footing x y where
  queue : y.pipeline.queue = x.pipeline.queue
  answers : y.answers = x.answers
  busy : y.busy = x.busy
  block : y.block = x.block
  intent : y.intent = x.intent
  said : y.said = x.said

lemma Calm.trans (h : Calm x y) (h' : Calm y z) : Calm x z where
  manager := h.manager.trans h'.manager
  chain := h'.chain.trans h.chain
  pendingBlock p hp := h.pendingBlock p (h'.pendingBlock p hp)
  queue := h'.queue.trans h.queue
  answers := h'.answers.trans h.answers
  busy := h'.busy.trans h.busy
  block := h'.block.trans h.block
  intent := h'.intent.trans h.intent
  said := h'.said.trans h.said

/-- What was sent does not matter. -/
lemma Aligned.withEffects (h : x.Aligned) (effects : List Effect) :
    Aligned { x with effects } := by
  have hfoot : Footing x { x with effects } := ⟨Manager.gentle_refl _, rfl, fun _ hp => hp⟩
  refine ⟨h.coherent, h.inRange, h.count, h.level, h.queued, ?_, h.noFastAdd, h.held, h.pending,
    h.asking, h.catchingUp, h.sound⟩
  intro a ha
  exact hfoot.outcome (h.answered a ha)

/-- The policy, the notes and who waits do not matter. -/
lemma calm_books {policy : BuildPolicy} {effects : List Effect} {awaited : Bool}
    (hsaid : effects.filterMap Effect.signs? = x.said) :
    Calm x { x with policy, effects, awaited } :=
  ⟨⟨Manager.gentle_refl _, rfl, fun _ hp => hp⟩, rfl, rfl, rfl, rfl, rfl, hsaid⟩

lemma calm_note (x : Executor n) (entry : Note) : Calm x (x.note entry) := calm_books rfl

lemma calm_count (x : Executor n) (c : Counter) : Calm x (x.emit (.count c)) := calm_books rfl

lemma calm_manager {m : Manager n} (h : Gentle x.manager m) : Calm x { x with manager := m } :=
  ⟨⟨h, rfl, fun _ hp => hp⟩, rfl, rfl, rfl, rfl, rfl, rfl⟩

lemma calm_setTime (x : Executor n) (now : Duration) : Calm x (x.setTime now) :=
  calm_manager (Manager.gentle_setTime _ _)

lemma Calm.leads (h : Calm x y) (hx : x.Aligned) : Leads x y := by
  apply h.toFooting.leads hx h.busy h.block h.intent h.said
  · rw [h.queue, h.answers, h.busy]
    exact hx.count
  · intro t ht
    rw [h.queue] at ht
    exact .inl ht
  · intro a ha
    rw [h.answers] at ha
    exact .inl ha

/-! ### Handing tasks to the pipeline -/

section Submit

variable (x) (t : Task)

@[simp] lemma submit_busy : (x.submit t).busy = x.busy := rfl

@[simp] lemma submit_intent : (x.submit t).intent = x.intent := rfl

lemma submit_eq : x.submit t =
    { x with
      pipeline := (x.pipeline.submit t).1
      answers := x.answers ++ (x.pipeline.submit t).2.toList } := rfl

lemma submit_worker : (x.submit t).pipeline.worker = x.pipeline.worker := by
  rw [submit_eq]
  unfold Pipeline.submit
  split <;> rfl

lemma submit_tasks :
    ((x.submit t).pipeline.queue = x.pipeline.queue ++ [t] ∧ (x.submit t).answers = x.answers) ∨
      ((x.submit t).pipeline.queue = x.pipeline.queue ∧
        (x.submit t).answers = x.answers ++ [⟨t, .error .closed⟩]) := by
  rw [submit_eq]
  unfold Pipeline.submit
  split
  · exact .inr ⟨rfl, rfl⟩
  · exact .inl ⟨rfl, List.append_nil _⟩

lemma count_submit :
    (x.submit t).pipeline.queue.countP Task.isOperation +
        (x.submit t).answers.countP (fun a => a.task.isOperation) =
      x.pipeline.queue.countP Task.isOperation + x.answers.countP (fun a => a.task.isOperation) +
        t.isOperation.toNat := by
  have hone : [t].countP Task.isOperation = t.isOperation.toNat := by
    cases h : t.isOperation <;> simp [h]
  rcases submit_tasks x t with ⟨hq, ha⟩ | ⟨hq, ha⟩
  · rw [hq, ha, List.countP_append, hone]
    omega
  · have hrefused : [(⟨t, .error .closed⟩ : Answer Task)].countP (fun a => a.task.isOperation) =
        t.isOperation.toNat := hone
    rw [hq, ha, List.countP_append, hrefused]
    omega

variable {x t}

lemma mem_queue_submit {t' : Task} (h : t' ∈ (x.submit t).pipeline.queue) :
    t' ∈ x.pipeline.queue ∨ t' = t := by
  rcases submit_tasks x t with ⟨hq, -⟩ | ⟨hq, -⟩
  · rw [hq] at h
    simpa using h
  · rw [hq] at h
    exact .inl h

lemma mem_answers_submit {a : Answer Task} (h : a ∈ (x.submit t).answers) :
    a ∈ x.answers ∨ a = ⟨t, .error .closed⟩ := by
  rcases submit_tasks x t with ⟨-, ha⟩ | ⟨-, ha⟩
  · rw [ha] at h
    exact .inl h
  · rw [ha] at h
    simpa using h

variable (x t)

lemma footing_submit : Footing x (x.submit t) where
  manager := Manager.gentle_refl _
  chain := by
    unfold chain engine
    rw [submit_worker]
  pendingBlock := by
    unfold pendingBlock
    rw [submit_worker]
    exact fun _ hp => hp

end Submit

lemma Aligned.submit (h : x.Aligned) {t : Task} (hop : t.isOperation = false)
    (hfast : ∀ b, t ≠ .fastAdd b) : Leads x (x.submit t) := by
  apply (footing_submit x t).leads h rfl rfl rfl rfl
  · rw [count_submit, hop]
    exact h.count
  · intro t' ht'
    rcases mem_queue_submit ht' with hold | rfl
    · exact .inl hold
    · exact .inr ⟨hop, hfast⟩
  · intro a ha
    rcases mem_answers_submit ha with hold | rfl
    · exact .inl hold
    · right
      intro ht
      rw [hop] at ht
      cases ht

/-- An operation that fits the manager may start when none is under way. -/
lemma Aligned.operate (h : x.Aligned) {t : Task} (hop : t.isOperation = true)
    (hfit : x.busy = false → x.Fit t) : Leads x (x.operate t) := by
  unfold Executor.operate
  split
  · exact h.leads
  rename_i hbusy
  have hb : x.busy = false := by simpa using hbusy
  let s : Executor n := { x with busy := true, intent := .doNothing }
  have hfoot : Footing x (s.submit t) := by
    have hs := footing_submit s t
    exact ⟨hs.manager, hs.chain, hs.pendingBlock⟩
  have hlevel := hfoot.level (h.level hb)
  have hready := hfoot.fit (hfit hb)
  refine ⟨{
    coherent := h.coherent
    inRange := h.inRange
    count := ?count
    level := by simp
    queued := ?queued
    answered := ?answered
    noFastAdd := ?noFastAdd
    held := h.held
    pending := fun hp p hy => h.pending hp p (hfoot.pendingBlock p hy)
    asking := by simp
    catchingUp := by simp
    sound := ?sound }, fun _ _ => hfoot.bound, rfl⟩
  case count =>
    have hx := h.count
    rw [hb] at hx
    rw [count_submit, hop]
    exact congrArg (· + 1) hx
  case queued =>
    intro t' ht' hop'
    refine ⟨hlevel, ?_⟩
    rcases mem_queue_submit ht' with hold | rfl
    · exact hfoot.fit (h.queued t' hold hop').2
    · exact hready
  case answered =>
    intro a ha
    rcases mem_answers_submit ha with hold | rfl
    · exact hfoot.outcome (h.answered a hold)
    · exact fun _ => ⟨hlevel, hready⟩
  case noFastAdd =>
    intro b hb
    rcases mem_queue_submit hb with hold | rfl
    · exact h.noFastAdd b hold
    · cases hop
  case sound =>
    rw [hfoot.chain]
    exact h.sound

/-! ### Acting on the intent -/

lemma calm_setForceStop (x : Executor n) (stop : Bool) : Calm x (x.setForceStop stop) :=
  calm_books rfl

lemma calm_shouldBuild (x : Executor n) (now : Duration) : Calm x (x.shouldBuild now).2 :=
  calm_books rfl

lemma Aligned.commitBlock (h : x.Aligned) (hi : x.manager.intent = .commitBlock) :
    Leads x x.commitBlock := by
  unfold Executor.commitBlock
  split
  · exact (calm_note x _).leads h
  · rename_i b hb
    have hp := h.coherent.prepared_of_committing hi
    obtain ⟨b', hb', hr, -⟩ := h.held (by simp [hp])
    rw [hb] at hb'
    cases hb'
    exact h.operate rfl fun _ => ⟨hp, hr⟩

lemma Aligned.buildBlock (h : x.Aligned) (hi : x.manager.intent = .buildBlock) (now : Duration) :
    Leads x (x.buildBlock now) := by
  have hp : x.manager.own.phase = .waitBlock := h.coherent.waits_to_take (.inr hi)
  have hstop := (calm_setForceStop x false).leads h
  simp only [Executor.buildBlock]
  split
  · exact hstop
  · have hdue := (calm_shouldBuild (x.setForceStop false) now).leads hstop.aligned
    have hwaits : ((x.setForceStop false).shouldBuild now).2.Fit .build := hp
    generalize (x.setForceStop false).shouldBuild now = r at hdue hwaits ⊢
    have hboth := hstop.trans hdue
    split
    · exact hboth.trans (hboth.aligned.operate rfl fun _ => hwaits)
    · exact hboth

lemma Aligned.follow (h : x.Aligned) (hb : x.busy = false) {intent : Intent}
    (hi : intent = .doNothing ∨ intent = x.manager.intent) :
    Leads x { x with previous := x.manager.intent, intent } := by
  have hfoot : Footing x { x with previous := x.manager.intent, intent } :=
    ⟨Manager.gentle_refl _, rfl, fun _ hp => hp⟩
  refine ⟨⟨h.coherent, h.inRange, h.count, h.level, h.queued, ?_, h.noFastAdd, h.held, h.pending,
    fun rid hr => ?_, fun height hh => ?_, h.sound⟩, fun _ _ hbound => hbound, rfl⟩
  · intro a ha
    exact hfoot.outcome (h.answered a ha)
  · rcases hi with rfl | rfl
    · cases hr
    · exact ⟨hb, h.coherent.waits_to_take (.inl ⟨rid, hr⟩)⟩
  · rcases hi with rfl | rfl
    · cases hh
    · exact ⟨hb, h.coherent.catches_up hh⟩

/-- Acting on the manager's intent keeps the alignment. -/
lemma Aligned.update (h : x.Aligned) (now : Duration) : Leads x (x.update now) := by
  unfold Executor.update
  split
  · exact h.leads
  rename_i hbusy
  have hb : x.busy = false := by simpa using hbusy
  have hstop : Leads x (if x.previous = .buildBlock ∧ x.manager.intent ≠ .buildBlock then
      x.setForceStop true else x) := by
    split
    · exact (calm_setForceStop x true).leads h
    · exact h.leads
  generalize hy : (if x.previous = .buildBlock ∧ x.manager.intent ≠ .buildBlock then
      x.setForceStop true else x) = y at hstop ⊢
  have hyb : y.busy = false := by
    rw [← hy]
    split <;> exact hb
  have hidle := hstop.aligned.follow hyb (.inl rfl)
  simp only
  split
  · rename_i hc
    exact hstop.trans (hidle.trans (hidle.aligned.commitBlock hc))
  · rename_i hc
    exact hstop.trans (hidle.trans (hidle.aligned.buildBlock hc now))
  · exact hstop.trans (hstop.aligned.follow hyb (.inr rfl))

lemma Aligned.pump (h : x.Aligned) (now : Duration) : Leads x (x.pump now) :=
  ((calm_setTime x now).leads h).trans (((calm_setTime x now).leads h).aligned.update now)

end Executor

end Conclave

import Conclave.Proofs.ExecutorAlignment

/-!
# The work of a pipeline

What each job does to the chain and to the pending block, and why an executor stays aligned while
its pipeline works.
-/

namespace Conclave

variable {n : ℕ}

/-! ### The operations of an engine -/

namespace Builder

lemma applySignature_def (b : Builder n) (s : Signature) :
    BlockBuilder.applySignature b s = b.applySignature s := rfl

lemma witness_def (b : Builder n) : BlockBuilder.witness b = b.witness := rfl

end Builder

namespace Engine

variable (e : Engine n)

lemma load_def (b : Block) : BlockEngine.load e b = e.load b := rfl

lemma build_def (order : BuildOrder) : BlockEngine.build e order = e.build order := rfl

lemma signatureOf_def (rid : Rid) : BlockEngine.signatureOf e rid = e.signatureOf rid := rfl

lemma commit_def (b : Builder n) (w : Witness) : BlockEngine.commit e b w = e.commit b w := rfl

end Engine

/-! ### One job -/

/-- What a job makes of a worker, by its result. -/
inductive Ran (w : Worker (Engine n) (Builder n)) :
    (job : Job) → Except PipelineError job.Reply → Worker (Engine n) (Builder n) → Prop
  | failed {job : Job} {cause : PipelineError} {w' : Worker (Engine n) (Builder n)}
      (chain : w'.engine.chain = w.engine.chain)
      (builder : ∀ p, w'.builder.map Builder.block = some p → w.builder.map Builder.block = some p) :
      Ran w job (.error cause) w'
  | loaded {b : Block} {s : Signature} {w' : Worker (Engine n) (Builder n)}
      (chain : w'.engine.chain = w.engine.chain) (height : b.height = w.engine.chain.height + 1)
      (builder : w'.builder.map Builder.block = some b) : Ran w (.load b) (.ok s) w'
  | built {b : Block} {s : Signature} {w' : Worker (Engine n) (Builder n)}
      (chain : w'.engine.chain = w.engine.chain) (height : b.height = w.engine.chain.height + 1)
      (builder : w'.builder.map Builder.block = some b) : Ran w .build (.ok (b, s)) w'
  | added {b : SealedBlock} {s : Signature} {w' : Worker (Engine n) (Builder n)}
      (chain : w'.engine.chain = w.engine.chain.append b s)
      (height : b.block.height = w.engine.chain.height + 1) (builder : w'.builder = none) :
      Ran w (.add b) (.ok ()) w'
  | committed {signatures : List (Option Signature)} {b : SealedBlock} {s : Signature}
      {w' : Worker (Engine n) (Builder n)} (pending : w.builder.map Builder.block = some b.block)
      (chain : w'.engine.chain = w.engine.chain.append b s)
      (height : b.block.height = w.engine.chain.height + 1) (builder : w'.builder = none) :
      Ran w (.commit signatures) (.ok ()) w'
  | verified {s : Signature} {valid : Bool} {w' : Worker (Engine n) (Builder n)}
      (chain : w'.engine.chain = w.engine.chain)
      (builder : w'.builder.map Builder.block = w.builder.map Builder.block) :
      Ran w (.verify s) (.ok valid) w'
  | read {height : ℕ} {transactions : Bool} {found : Option SealedBlock}
      {w' : Worker (Engine n) (Builder n)} (worker : w' = w) :
      Ran w (.blockAt height transactions) (.ok found) w'
  | signed {rid : Rid} {found : Option Signature} {w' : Worker (Engine n) (Builder n)}
      (worker : w' = w) (found_eq : found = w.engine.chain.signatureOf rid) :
      Ran w (.signatureOf rid) (.ok found) w'
  | measured {height : Option ℕ} {w' : Worker (Engine n) (Builder n)} (worker : w' = w) :
      Ran w .lastHeight (.ok height) w'

section Jobs

variable (w : Worker (Engine n) (Builder n))

lemma chain_abandon : w.abandon.engine.chain = w.engine.chain := by
  unfold Worker.abandon
  split <;> rfl

lemma builder_abandon : w.abandon.builder = none := by
  unfold Worker.abandon
  split
  · assumption
  · rfl

lemma chain_load (e : Engine n) (b : Block) : (e.load b).2.chain = e.chain := by
  unfold Engine.load
  split
  · rfl
  · split <;> rfl

lemma height_of_checkExtends {c : Chain} {h : Header} (hok : c.checkExtends h = .ok ()) :
    h.height = c.height + 1 := by
  by_contra hne
  unfold Chain.checkExtends at hok
  rw [if_pos hne] at hok
  cases hok

lemma extends_of_checkBlock {e : Engine n} {b : Block} (h : e.checkBlock b = .ok ()) :
    e.chain.checkExtends b.header = .ok () := by
  unfold Engine.checkBlock at h
  cases hextends : e.chain.checkExtends b.header with
  | error cause => simp [hextends, bind, Except.bind] at h
  | ok u => rfl

/-- A block that is loaded has been checked. -/
lemma checkBlock_of_load {e : Engine n} {b : Block} {builder : Builder n}
    (h : (e.load b).1 = .ok builder) : builder = e.builder b ∧ e.checkBlock b = .ok () := by
  unfold Engine.load at h
  split at h
  · cases h
  split at h
  · cases h
  simp only at h
  cases hc : e.checkBlock b with
  | error cause => simp [hc, Except.map] at h
  | ok u =>
    simp only [hc, Except.map, Except.ok.injEq] at h
    exact ⟨h.symm, rfl⟩

lemma load_eq_ok {e : Engine n} {b : Block} {builder : Builder n}
    (h : (e.load b).1 = .ok builder) : builder.block = b ∧ b.height = e.chain.height + 1 := by
  obtain ⟨rfl, hcheck⟩ := checkBlock_of_load h
  exact ⟨rfl, height_of_checkExtends (extends_of_checkBlock hcheck)⟩

lemma ran_load (b : Block) : Ran w (.load b) (w.load b).1 (w.load b).2 := by
  have hchain := chain_load w.abandon.engine b
  have hok : ∀ builder, (w.abandon.engine.load b).1 = .ok builder → _ := fun _ => load_eq_ok
  rw [chain_abandon] at hchain hok
  simp only [Worker.load, Engine.load_def]
  generalize w.abandon.engine.load b = r at hchain hok ⊢
  obtain ⟨result, engine⟩ := r
  cases result with
  | error cause => exact .failed hchain (by simp [builder_abandon])
  | ok builder =>
    obtain ⟨hb, hheight⟩ := hok builder rfl
    exact .loaded hchain hheight (congrArg some hb)

lemma chain_build (e : Engine n) (order : BuildOrder) : (e.build order).2.chain = e.chain := by
  unfold Engine.build
  split
  · rfl
  split
  · rfl
  split <;> rfl

/-- A block that is built is made for the chain. -/
lemma build_eq_ok {e : Engine n} {order : BuildOrder} {builder : Builder n}
    (h : (e.build order).1 = .ok builder) :
    e.chain.checkExtends builder.block.header = .ok () := by
  unfold Engine.build at h
  split at h
  · cases h
  split at h
  · cases h
  split at h
  · cases h
  · cases h
    simp [Chain.checkExtends, Engine.builder, Engine.nextBlock]

lemma ran_build (order : BuildOrder) : Ran w .build (w.build order).1 (w.build order).2 := by
  have hchain := chain_build w.abandon.engine order
  have hok : ∀ builder, (w.abandon.engine.build order).1 = .ok builder → _ := fun _ => build_eq_ok
  rw [chain_abandon] at hchain hok
  simp only [Worker.build, Engine.build_def]
  generalize w.abandon.engine.build order = r at hchain hok ⊢
  obtain ⟨result, engine⟩ := r
  cases result with
  | error cause => exact .failed hchain (by simp [builder_abandon])
  | ok builder => exact .built hchain (height_of_checkExtends (hok builder rfl)) rfl

/-- A commit appends the block to the chain, or leaves the chain as it is. -/
lemma commit_cases (e : Engine n) (builder : Builder n) (witness : Witness) :
    ((∃ cause, (e.commit builder witness).1 = .error cause) ∧
        (e.commit builder witness).2.chain = e.chain) ∨
      ((e.commit builder witness).1 = .ok () ∧
        (e.commit builder witness).2.chain =
          e.chain.append ⟨builder.block, witness⟩ builder.signature ∧
        builder.block.height = e.chain.height + 1) := by
  unfold Engine.commit
  split
  · exact .inl ⟨⟨_, rfl⟩, rfl⟩
  · exact .inl ⟨⟨_, rfl⟩, rfl⟩
  · rename_i hextends
    exact .inr ⟨rfl, rfl, height_of_checkExtends hextends⟩

lemma ran_add (b : SealedBlock) : Ran w (.add b) (w.add b).1 (w.add b).2 := by
  have hchain := chain_load w.abandon.engine b.block
  have hok : ∀ builder, (w.abandon.engine.load b.block).1 = .ok builder → _ := fun _ => load_eq_ok
  rw [chain_abandon] at hchain hok
  simp only [Worker.add, Engine.load_def]
  generalize w.abandon.engine.load b.block = r at hchain hok ⊢
  obtain ⟨result, engine⟩ := r
  cases result with
  | error cause => exact .failed hchain (by simp [builder_abandon])
  | ok builder =>
    obtain ⟨hb, hheight⟩ := hok builder rfl
    have hcases := commit_cases engine builder b.witness
    simp only [Engine.commit_def]
    generalize engine.commit builder b.witness = r at hcases ⊢
    obtain ⟨committed, engine'⟩ := r
    simp only at hchain hcases
    rw [hchain, hb] at hcases
    rcases hcases with ⟨⟨cause, rfl⟩, hc⟩ | ⟨rfl, hc, -⟩
    · exact .failed hc (by simp [builder_abandon])
    · exact .added hc hheight (builder_abandon w)

lemma block_applySignature {b b' : Builder n} {s : Signature} (h : b.applySignature s = .ok b') :
    b'.block = b.block := by
  unfold Builder.applySignature at h
  split at h
  · cases h
  · cases h
    rfl

lemma block_collect (b : Builder n) (l : List Signature) :
    (BlockBuilder.collect b l).1.block = b.block := by
  induction l generalizing b with
  | nil => rfl
  | cons s l ih =>
    unfold BlockBuilder.collect
    split
    · exact ih b
    · split
      · rfl
      · rename_i b' happly
        rw [ih b']
        exact block_applySignature happly

lemma ran_commit (signatures : List (Option Signature)) :
    Ran w (.commit signatures) (w.commit signatures).1 (w.commit signatures).2 := by
  unfold Worker.commit
  cases hw : w.builder with
  | none => exact .failed rfl fun _ hp => hp
  | some b =>
    have hblock := block_collect b (signatures.filterMap id)
    simp only
    generalize BlockBuilder.collect b (signatures.filterMap id) = r at hblock ⊢
    obtain ⟨b', collected⟩ := r
    simp only at hblock
    cases collected with
    | error cause =>
      refine .failed rfl fun p hp => ?_
      rw [hw]
      simpa [hblock] using hp
    | ok u =>
      have hcases := commit_cases w.engine b' b'.witness
      simp only [Engine.commit_def, Builder.witness_def]
      generalize w.engine.commit b' b'.witness = r at hcases ⊢
      obtain ⟨committed, engine⟩ := r
      simp only at hcases
      rcases hcases with ⟨⟨cause, rfl⟩, hc⟩ | ⟨rfl, hc, hheight⟩
      · exact .failed hc (by simp)
      · refine .committed ?_ hc hheight rfl
        rw [hw]
        exact congrArg some hblock.symm

lemma ran_verify (s : Signature) : Ran w (.verify s) (.ok (w.verify s).1) (w.verify s).2 := by
  unfold Worker.verify
  cases hw : w.builder with
  | none => exact .verified rfl rfl
  | some b =>
    cases happly : b.applySignature s with
    | error cause =>
      simp only [Builder.applySignature_def, happly]
      exact .verified rfl rfl
    | ok b' =>
      simp only [Builder.applySignature_def, happly]
      refine .verified rfl ?_
      rw [hw]
      exact congrArg some (block_applySignature happly)

lemma ran_run (order : BuildOrder) (job : Job) :
    Ran w job (w.run order job).1 (w.run order job).2 := by
  cases job with
  | load b => exact ran_load w b
  | build => exact ran_build w order
  | add b => exact ran_add w b
  | commit signatures => exact ran_commit w signatures
  | verify s => exact ran_verify w s
  | blockAt height transactions =>
    simp only [Worker.run]
    cases BlockEngine.blockAt w.engine height transactions with
    | error cause => exact .failed rfl fun _ hp => hp
    | ok found => exact .read rfl
  | signatureOf rid =>
    simp only [Worker.run, Engine.signatureOf_def, Engine.signatureOf, Engine.whenOpen]
    split
    · exact .failed rfl fun _ hp => hp
    · exact .signed rfl rfl
  | lastHeight =>
    simp only [Worker.run]
    cases BlockEngine.lastHeight w.engine with
    | error cause => exact .failed rfl fun _ hp => hp
    | ok height => exact .measured rfl

end Jobs

/-- A failed job leaves the chain alone, and no new pending block. -/
lemma Ran.of_error {w w' : Worker (Engine n) (Builder n)} {job : Job} {cause : PipelineError}
    (h : Ran w job (.error cause) w') : w'.engine.chain = w.engine.chain ∧
      ∀ p, w'.builder.map Builder.block = some p → w.builder.map Builder.block = some p := by
  cases h with
  | failed chain builder => exact ⟨chain, builder⟩

/-- The next task is run, or dropped by a stopped pipeline. -/
lemma Pipeline.next_cases {p p' : Pipeline (Engine n) (Builder n) Task} {order : BuildOrder}
    {a : Answer Task} (h : p.next order = some (a, p')) :
    p.queue = a.task :: p'.queue ∧ Ran p.worker a.task.job a.result p'.worker := by
  unfold next at h
  split at h
  · cases h
  rename_i t queue hq
  simp only at h
  split at h
  · cases h
    exact ⟨hq, .failed rfl fun _ hp => hp⟩
  · cases h
    exact ⟨hq, ran_run p.worker order t.job⟩

/-- A task that is dropped leaves the worker as it is. -/
lemma Pipeline.next_worker {a : Answer Task} {p p' : Pipeline (Engine n) (Builder n) Task}
    {order : BuildOrder} (h : p.next order = some (a, p')) :
    (p'.worker = p.worker ∧ a.result = .error .closed) ∨
      p.worker.run order a.task.job = (a.result, p'.worker) := by
  unfold next at h
  split at h
  · cases h
  simp only at h
  split at h
  · cases h
    exact .inl ⟨rfl, rfl⟩
  · cases h
    exact .inr rfl

/-- Signatures that are verified and data that is read leave the pending block alone. -/
lemma Worker.block_run {t : Task} (hop : t.isOperation = false) (hfast : ∀ b, t ≠ .fastAdd b)
    (w : Worker (Engine n) (Builder n)) (order : BuildOrder) :
    (w.run order t.job).2.builder.map Builder.block = w.builder.map Builder.block := by
  cases t with
  | build | load | add | commit => cases hop
  | fastAdd b => exact (hfast b rfl).elim
  | verify sender rid s =>
    cases ran_verify w s with
    | verified chain builder => exact builder
  | serveBlock | serveSignature | chainHeight => rfl

namespace Executor

open Manager (PreparedOn Gentle)

variable {x y : Executor n} {a : Answer Task}

/-! ### A task that gets its answer -/

/-- The first task of the queue has got the answer `a`. -/
structure Answered (x y : Executor n) (a : Answer Task) : Prop where
  queue : x.pipeline.queue = a.task :: y.pipeline.queue
  answers : y.answers = x.answers ++ [a]
  manager : y.manager = x.manager
  busy : y.busy = x.busy
  block : y.block = x.block
  intent : y.intent = x.intent
  said : y.said = x.said

namespace Answered

lemma count (hs : Answered x y a) (h : x.Aligned) :
    y.pipeline.queue.countP Task.isOperation + y.answers.countP (fun a => a.task.isOperation) =
      y.busy.toNat := by
  have hx := h.count
  rw [hs.queue, List.countP_cons] at hx
  rw [hs.answers, hs.busy, List.countP_append, List.countP_singleton]
  omega

/-- Behind an operation there is no other one. -/
lemma alone (hs : Answered x y a) (h : x.Aligned) (hop : a.task.isOperation = true) :
    x.busy = true ∧ (∀ t ∈ y.pipeline.queue, t.isOperation = false) ∧
      ∀ b ∈ x.answers, b.task.isOperation = false := by
  have hx := h.count
  rw [hs.queue, List.countP_cons, if_pos hop] at hx
  have hle : x.busy.toNat ≤ 1 := Bool.toNat_le _
  have hq : y.pipeline.queue.countP Task.isOperation = 0 := by omega
  have ha : x.answers.countP (fun a => a.task.isOperation) = 0 := by omega
  have hb : x.busy.toNat = 1 := by omega
  refine ⟨by simpa using hb, fun t ht => ?_, fun b hb => ?_⟩
  · simpa using List.countP_eq_zero.mp hq t ht
  · simpa using List.countP_eq_zero.mp ha b hb

lemma footing (hs : Answered x y a) (hchain : y.chain = x.chain)
    (hpending : ∀ p, y.pendingBlock = some p → x.pendingBlock = some p) : Footing x y where
  manager := by
    rw [hs.manager]
    exact Manager.gentle_refl _
  chain := hchain
  pendingBlock := hpending

/-- A task that is no operation, or fails, leaves everything where it was. -/
lemma leads_fixed (hs : Answered x y a) (h : x.Aligned) (hchain : y.chain = x.chain)
    (hpending : ∀ p, y.pendingBlock = some p → x.pendingBlock = some p) (hout : y.Outcome a) :
    Leads x y := by
  apply (hs.footing hchain hpending).leads h hs.busy hs.block hs.intent hs.said (hs.count h)
  · intro t ht
    left
    rw [hs.queue]
    exact List.mem_cons_of_mem _ ht
  · intro b hb
    rw [hs.answers] at hb
    rcases List.mem_append.mp hb with hold | hnew
    · exact .inl hold
    · rw [List.mem_singleton.mp hnew]
      exact .inr hout

lemma leads_read (hs : Answered x y a) (h : x.Aligned)
    (hworker : y.pipeline.worker = x.pipeline.worker) (hout : y.Outcome a) : Leads x y := by
  have hchain : y.chain = x.chain := congrArg (·.engine.chain) hworker
  have hpending : y.pendingBlock = x.pendingBlock := congrArg (·.builder.map Builder.block) hworker
  refine hs.leads_fixed h hchain (fun p hp => ?_) hout
  rw [← hpending]
  exact hp

/-- The outcome of a task that is no operation rests on what the chain has. -/
lemma outcome_of_has {b : Answer Task} (hop : b.task.isOperation = false)
    (hgrow : ∀ height rid, x.chain.Has height rid → y.chain.Has height rid)
    (hb : x.Outcome b) : y.Outcome b := by
  obtain ⟨t, result⟩ := b
  cases result with
  | error cause => exact fun ht => by simp [hop] at ht
  | ok reply =>
    cases t with
    | build | load | add | commit => cases hop
    | serveSignature receiver rid =>
      intro hfound
      obtain ⟨height, hhas⟩ := hb hfound
      exact ⟨height, hgrow height rid hhas⟩
    | verify | serveBlock | chainHeight | fastAdd => trivial

/-- An operation is the only one, so nothing else waits for the chain to stay. -/
lemma leads_operated (hs : Answered x y a) (h : x.Aligned) (hop : a.task.isOperation = true)
    (hgrow : ∀ height rid, x.chain.Has height rid → y.chain.Has height rid)
    (hsound : y.chain.Sound)
    (hpending : x.manager.own.phase ≠ .waitBlock →
      ∀ p, y.pendingBlock = some p → x.manager.own.rid = some p.rid)
    (hout : y.Outcome a) : Leads x y where
  aligned := by
    obtain ⟨hbusy, hqueue, hanswers⟩ := hs.alone h hop
    refine {
      coherent := ?coherent
      inRange := ?inRange
      count := hs.count h
      level := ?level
      queued := ?queued
      answered := ?answered
      noFastAdd := ?noFastAdd
      held := ?held
      pending := ?pending
      asking := ?asking
      catchingUp := ?catchingUp
      sound := hsound }
    case coherent =>
      rw [hs.manager]
      exact h.coherent
    case inRange =>
      rw [hs.manager]
      exact h.inRange
    case level =>
      intro hb
      rw [hs.busy, hbusy] at hb
      cases hb
    case queued =>
      intro t ht htop
      rw [hqueue t ht] at htop
      cases htop
    case answered =>
      intro b hb
      rw [hs.answers] at hb
      rcases List.mem_append.mp hb with hold | hnew
      · exact outcome_of_has (hanswers b hold) hgrow (h.answered b hold)
      · rw [List.mem_singleton.mp hnew]
        exact hout
    case noFastAdd =>
      intro b hb
      apply h.noFastAdd b
      rw [hs.queue]
      exact List.mem_cons_of_mem _ hb
    case held =>
      rw [hs.manager, hs.block]
      exact h.held
    case pending =>
      rw [hs.manager]
      exact hpending
    case asking =>
      intro rid hi
      rw [hs.intent] at hi
      rw [(h.asking rid hi).1] at hbusy
      cases hbusy
    case catchingUp =>
      intro height hi
      rw [hs.intent] at hi
      rw [(h.catchingUp height hi).1] at hbusy
      cases hbusy
  bound height rid hb := by
    rcases hb with hp | hc
    · left
      rw [hs.manager]
      exact hp
    · exact .inr (hgrow height rid hc)
  said := hs.said

lemma leads_staged (hs : Answered x y a) (h : x.Aligned) (hop : a.task.isOperation = true)
    {b : Block} (hlevel : x.Level) (hwaits : x.manager.own.phase = .waitBlock)
    (hchain : y.chain = x.chain) (hheight : b.height = x.chain.height + 1)
    (hbuilder : y.pendingBlock = some b)
    (hout : y.Staged b → y.Outcome a) : Leads x y := by
  refine hs.leads_operated h hop (fun k r hk => ?_) ?_ (fun hp => absurd hwaits hp)
    (hout ⟨?_, ?_, ?_, fun p hp => ?_⟩)
  · rw [hchain]
    exact hk
  · rw [hchain]
    exact h.sound
  · rw [hs.manager]
    exact hwaits
  · unfold Level
    rw [hs.manager, hchain]
    exact hlevel
  · rw [hchain]
    exact hheight
  · rw [hbuilder] at hp
    cases hp
    rfl

lemma leads_grown (hs : Answered x y a) (h : x.Aligned) (hop : a.task.isOperation = true)
    {b : SealedBlock} {s : Signature} (hchain : y.chain = x.chain.append b s)
    (hheight : b.block.height = x.chain.height + 1) (hbuilder : y.pendingBlock = none)
    (hout : y.Outcome a) : Leads x y := by
  refine hs.leads_operated h hop (fun k r hk => ?_) ?_ (fun _ p hp => ?_) hout
  · rw [hchain]
    exact hk.append
  · rw [hchain]
    exact h.sound.append hheight
  · rw [hbuilder] at hp
    cases hp

end Answered

lemma Aligned.ran (h : x.Aligned) (hs : Answered x y a)
    (hran : Ran x.pipeline.worker a.task.job a.result y.pipeline.worker) : Leads x y := by
  obtain ⟨t, result⟩ := a
  have hmem : t ∈ x.pipeline.queue := by
    rw [hs.queue]
    exact List.mem_cons_self
  cases result with
  | error cause =>
    obtain ⟨hchain, hbuilder⟩ := hran.of_error
    have hfoot := hs.footing hchain hbuilder
    exact hs.leads_fixed h hchain hbuilder fun hop =>
      ⟨hfoot.level (h.queued t hmem hop).1, hfoot.fit (h.queued t hmem hop).2⟩
  | ok reply =>
    cases t with
    | build =>
      obtain ⟨hlevel, hwaits⟩ := h.queued .build hmem rfl
      cases hran with
      | built chain height builder =>
        exact hs.leads_staged h rfl hlevel hwaits chain height builder id
    | load b =>
      obtain ⟨hlevel, hwaits⟩ := h.queued (.load b) hmem rfl
      cases hran with
      | loaded chain height builder =>
        exact hs.leads_staged h rfl hlevel hwaits chain height builder id
    | add b height =>
      obtain ⟨hlevel, hwaits, rfl⟩ := h.queued (.add b height) hmem rfl
      cases hran with
      | added chain height builder =>
        refine hs.leads_grown h rfl chain height (by simp [pendingBlock, builder]) ⟨?_, ?_, ?_⟩
        · rw [hs.manager]
          exact hwaits
        · rw [hs.manager]
        · have hgrown : y.chain = x.chain.append b _ := chain
          rw [hs.manager, hlevel, hgrown, Chain.height_append]
    | commit b signatures =>
      obtain ⟨hlevel, hprepared⟩ := h.queued (.commit b signatures) hmem rfl
      cases hran with
      | committed pending chain height builder =>
        rename_i b' s
        have hrid : b'.rid = b.rid := by
          have hpending := h.pending (by simp [hprepared.1]) b'.block pending
          rw [hprepared.2] at hpending
          exact (Option.some.inj hpending).symm
        have hgrown : y.chain = x.chain.append b' s := chain
        refine hs.leads_grown h rfl chain height (by simp [pendingBlock, builder]) ⟨?_, ?_, ?_⟩
        · rw [hs.manager]
          exact hprepared
        · rw [hs.manager, hlevel, hgrown, Chain.height_append]
        · rw [hs.manager, hlevel, hgrown]
          exact ⟨b', Chain.blockAt_append_self, hrid⟩
    | verify sender rid s =>
      cases hran with
      | verified chain builder =>
        refine hs.leads_fixed h chain (fun p hp => ?_) trivial
        exact builder.symm.trans hp
    | serveBlock receiver height =>
      cases hran with
      | read worker => exact hs.leads_read h worker trivial
    | serveSignature receiver rid =>
      cases hran with
      | signed worker found_eq =>
        refine hs.leads_read h worker fun hfound => ?_
        obtain ⟨s, hsig⟩ := Option.ne_none_iff_exists'.mp (found_eq ▸ hfound)
        obtain ⟨height, hhas⟩ := h.sound.own rid s hsig
        refine ⟨height, ?_⟩
        unfold chain engine
        rw [worker]
        exact hhas
    | chainHeight =>
      cases hran with
      | measured worker => exact hs.leads_read h worker trivial
    | fastAdd b => exact absurd hmem (h.noFastAdd b)

/-- A worker that leaves gives up its builder and keeps its chain. -/
lemma calm_exit (x : Executor n) : Calm x { x with pipeline := x.pipeline.exit } := by
  have hexit : x.pipeline.exit.queue = x.pipeline.queue ∧
      x.pipeline.exit.worker.engine.chain = x.pipeline.worker.engine.chain ∧
      ∀ p, x.pipeline.exit.worker.builder.map Builder.block = some p →
        x.pipeline.worker.builder.map Builder.block = some p := by
    unfold Pipeline.exit
    split
    · exact ⟨rfl, chain_abandon _, by simp [builder_abandon]⟩
    · exact ⟨rfl, rfl, fun _ hp => hp⟩
  obtain ⟨hqueue, hchain, hbuilder⟩ := hexit
  exact ⟨⟨Manager.gentle_refl _, hchain, hbuilder⟩, hqueue, rfl, rfl, rfl, rfl, rfl⟩

lemma Aligned.runTask (h : x.Aligned) {now : Duration} (hr : x.runTask now = some y) :
    Leads x y := by
  unfold Executor.runTask at hr
  split at hr
  · rename_i a p hnext
    obtain ⟨hqueue, hran⟩ := Pipeline.next_cases hnext
    have hanswered : Leads x { x with pipeline := p, answers := x.answers ++ [a] } :=
      h.ran ⟨hqueue, rfl, rfl, rfl, rfl, rfl, rfl⟩ hran
    simp only at hr
    split at hr
    · cases hr
      exact hanswered
    · cases hr
      exact hanswered.trans ((calm_count _ _).leads hanswered.aligned)
  · split at hr
    · cases hr
      exact (calm_exit x).leads h
    · cases hr

end Executor

end Conclave

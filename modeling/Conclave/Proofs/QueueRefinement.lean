import Conclave.Proofs.PipelineWork

/-!
# The backlog of a pipeline

A transaction that waits for its block stands in the queue, or among those that the own block under
construction has taken from it. Together they are one first-in first-out list, the backlog: a push
appends to it, a committed block removes what it includes, and nothing else that a pipeline does
changes it, whatever fails, is abandoned or is put back on the way.
-/

namespace Conclave

variable {n : ℕ}

/-! ### The list that a pipeline works off -/

/-- What one turn of a pipeline amounts to. -/
inductive Deed where
  | push (tx : Bytes)
  /-- An own block was built. -/
  | build (b : Block)
  /-- A block of somebody else was loaded. -/
  | load (b : Block)
  | commit (b : Block)
  /-- Anything else, failures included. -/
  | pass

namespace Deed

/-- What a deed does to the backlog. -/
def apply (backlog : List Bytes) : Deed → List Bytes
  | push tx => backlog ++ [tx]
  | commit b => backlog.filter fun tx => !b.transactions.contains tx
  | build _ | load _ | pass => backlog

/-- The block of the last build, unless a block was loaded since. -/
def lastBuilt (built : Option Block) : Deed → Option Block
  | build b => some b
  | load _ => none
  | push _ | commit _ | pass => built

def pushed? : Deed → Option Bytes
  | push tx => some tx
  | _ => none

def committed? : Deed → Option Block
  | commit b => some b
  | _ => none

/-- Transactions leave the backlog only with a block that includes them, and keep their order. -/
lemma foldl_apply (deeds : List Deed) (backlog : List Bytes) :
    (deeds.foldl apply backlog).Sublist (backlog ++ deeds.filterMap pushed?) ∧
      ∀ p : Bytes → Bool, (∀ b ∈ deeds.filterMap committed?, ∀ tx ∈ b.transactions, p tx = false) →
        (deeds.foldl apply backlog).filter p = (backlog ++ deeds.filterMap pushed?).filter p := by
  induction deeds generalizing backlog with
  | nil => simp
  | cons d deeds ih =>
    obtain ⟨hsub, hkept⟩ := ih (apply backlog d)
    rw [List.foldl_cons]
    cases d with
    | push tx =>
      refine ⟨by simpa [apply, pushed?] using hsub, fun p hp => ?_⟩
      rw [hkept p (by simpa [committed?] using hp)]
      simp [apply, pushed?]
    | commit b =>
      refine ⟨hsub.trans (List.filter_sublist.append (List.Sublist.refl _)), fun p hp => ?_⟩
      have hp : (∀ tx ∈ b.transactions, p tx = false) ∧
          ∀ c ∈ deeds.filterMap committed?, ∀ tx ∈ c.transactions, p tx = false :=
        List.forall_mem_cons.mp hp
      rw [hkept p hp.2, List.filter_append, List.filter_append, apply, List.filter_filter]
      congr 1
      apply List.filter_congr
      intro tx _
      by_cases htx : tx ∈ b.transactions
      · simp [htx, hp.1 tx htx]
      · simp [htx]
    | build b => exact ⟨hsub, hkept⟩
    | load b => exact ⟨hsub, hkept⟩
    | pass => exact ⟨hsub, hkept⟩

end Deed

/-- What the answer to a job amounts to, when `pending` is the block under construction before. -/
def Job.deed (pending : Option Block) : (job : Job) → Except PipelineError job.Reply → Deed
  | .load b, .ok _ => .load b
  | .build, .ok (b, _) => .build b
  | .add b, .ok _ => .commit b.block
  | .commit _, .ok _ => pending.elim .pass .commit
  | _, _ => .pass

lemma Job.deed_error (pending : Option Block) (job : Job) (cause : PipelineError) :
    job.deed pending (.error cause) = .pass := by
  cases job <;> rfl

/-! ### One job -/

namespace Worker

variable {w w' : Worker (Engine n) (Builder n)} {built : Option Block} {d : Deed}

/-- The transactions that are not in a committed block yet, oldest first. -/
def backlog (w : Worker (Engine n) (Builder n)) : List Bytes :=
  w.engine.taken ++ w.engine.queue.txs

/-- The own block under construction, when `built` is the one built last. -/
def ownBlock (built : Option Block) (w : Worker (Engine n) (Builder n)) : Option Block :=
  if w.builder.isSome then built else none

/-- Only the own block under construction has taken transactions, and it consists of them. -/
structure Tidy (built : Option Block) (w : Worker (Engine n) (Builder n)) : Prop where
  taken : w.engine.taken = (w.ownBlock built).elim [] Block.transactions
  pending : ∀ b, w.ownBlock built = some b → w.builder.map Builder.block = some b

/-- From `w` to `w'` the deed `d` is done: to the backlog, to the chain, and to the own block. -/
structure Does (built : Option Block) (w w' : Worker (Engine n) (Builder n)) (d : Deed) :
    Prop where
  backlog : w'.backlog = d.apply w.backlog
  blocks : w'.engine.chain.blocks.map (·.block) =
    w.engine.chain.blocks.map (·.block) ++ d.committed?.toList
  tidy : w'.Tidy (d.lastBuilt built)

lemma tidy_of_none (ht : w.engine.taken = []) (ho : w.ownBlock built = none) : w.Tidy built :=
  ⟨by rw [ht, ho]; rfl, by simp [ho]⟩

/-- An engine with the chain, the queue and the taken transactions of `e`. -/
structure Alike (e e' : Engine n) : Prop where
  chain : e'.chain = e.chain
  queue : e'.queue = e.queue
  taken : e'.taken = e.taken

lemma alike_refl (e : Engine n) : Alike e e := ⟨rfl, rfl, rfl⟩

lemma does_pass (h : w.Tidy built) (he : Alike w.engine w'.engine)
    (hb : w'.builder.map Builder.block = w.builder.map Builder.block) : Does built w w' .pass where
  backlog := by simp only [Worker.backlog, he.taken, he.queue, Deed.apply]
  blocks := by simp [he.chain, Deed.committed?]
  tidy := by
    have hsome : w'.builder.isSome = w.builder.isSome := by
      rw [← Option.isSome_map, hb, Option.isSome_map]
    refine ⟨?_, ?_⟩
    · rw [he.taken, h.taken, ownBlock, ownBlock, hsome]
      rfl
    · rw [ownBlock, hsome, hb]
      exact h.pending

lemma Does.trans {x : Worker (Engine n) (Builder n)} (h : Does built w x .pass)
    (h' : Does built x w' d) : Does built w w' d where
  backlog := by rw [h'.backlog, h.backlog, Deed.apply]
  blocks := by simp [h'.blocks, h.blocks, Deed.committed?]
  tidy := h'.tidy

/-- Abandoning a block puts what it has taken back in front of the queue. -/
structure Cleared (w w' : Worker (Engine n) (Builder n)) : Prop where
  backlog : w'.engine.queue.txs = w.backlog
  taken : w'.engine.taken = []
  chain : w'.engine.chain = w.engine.chain
  builder : w'.builder = none

lemma cleared_restore (w : Worker (Engine n) (Builder n)) : Cleared w ⟨w.engine.restore, none⟩ :=
  ⟨rfl, rfl, rfl, rfl⟩

lemma Tidy.cleared_abandon (h : w.Tidy built) : Cleared w w.abandon := by
  unfold abandon
  split
  · rename_i hw
    have htaken : w.engine.taken = [] := by
      rw [h.taken, ownBlock, hw]
      rfl
    exact ⟨by simp [Worker.backlog, htaken], htaken, rfl, hw⟩
  · exact cleared_restore w

/-- What comes after an abandoned block leaves the backlog alone, unless it takes from the queue. -/
lemma Cleared.does {x : Worker (Engine n) (Builder n)} (h : Cleared w x)
    (he : Alike x.engine w'.engine) (happly : ∀ l, d.apply l = l) (hcommitted : d.committed? = none)
    (hown : w'.ownBlock (d.lastBuilt built) = none) : Does built w w' d where
  backlog := by rw [happly, Worker.backlog, he.taken, he.queue, h.taken, h.backlog, List.nil_append]
  blocks := by simp [he.chain, h.chain, hcommitted]
  tidy := tidy_of_none (he.taken.trans h.taken) hown

lemma Cleared.does_pass {x : Worker (Engine n) (Builder n)} (h : Cleared w x)
    (he : Alike x.engine w'.engine) (hb : w'.builder = none) : Does built w w' .pass :=
  h.does he (fun _ => rfl) rfl (by simp [ownBlock, hb])

/-! #### Loads and builds -/

lemma alike_load (e : Engine n) (b : Block) : Alike e (e.load b).2 := by
  unfold Engine.load
  split
  · exact ⟨rfl, rfl, rfl⟩
  · split <;> exact ⟨rfl, rfl, rfl⟩

lemma Tidy.load (h : w.Tidy built) (b : Block) :
    Does built w (w.load b).2 (Job.deed (w.builder.map Builder.block) (.load b) (w.load b).1) := by
  have hclear := h.cleared_abandon
  have halike := alike_load w.abandon.engine b
  simp only [Worker.load, Engine.load_def]
  generalize w.abandon.engine.load b = r at halike ⊢
  obtain ⟨result, engine⟩ := r
  cases result with
  | error cause => exact hclear.does_pass halike hclear.builder
  | ok builder => exact hclear.does halike (fun _ => rfl) rfl (by simp [ownBlock, Job.deed,
      Deed.lastBuilt])

/-- A block is filled from the front of the queue, and what is put back is put back in order. -/
lemma fill_append (order : BuildOrder) (taken queue : List Bytes) :
    (Engine.fill order taken queue).1.getD [] ++ (Engine.fill order taken queue).2 =
      taken ++ queue := by
  induction queue generalizing taken with
  | nil =>
    unfold Engine.fill
    split
    · simp
    · split <;> simp
  | cons tx queue ih =>
    unfold Engine.fill
    split
    · simp
    · split
      · simp
      · rw [ih]
        simp

lemma engine_build (e : Engine n) (order : BuildOrder) :
    ((∃ cause, (e.build order).1 = .error cause) ∧ Alike e (e.build order).2) ∨
      ∃ builder, (e.build order).1 = .ok builder ∧ (e.build order).2.chain = e.chain ∧
        (e.build order).2.taken = builder.block.transactions ∧
        builder.block.transactions ++ (e.build order).2.queue.txs = e.queue.txs := by
  have hfill := fill_append order [] e.queue.txs
  unfold Engine.build
  split
  · exact .inl ⟨⟨_, rfl⟩, rfl, rfl, rfl⟩
  split
  · exact .inl ⟨⟨_, rfl⟩, rfl, rfl, rfl⟩
  split
  · rename_i queue hq
    rw [hq] at hfill
    have hqueue : queue = e.queue.txs := by simpa using hfill
    exact .inl ⟨⟨_, rfl⟩, rfl, by rw [hqueue], rfl⟩
  · rename_i txs queue hq
    rw [hq] at hfill
    exact .inr ⟨_, rfl, rfl, rfl, hfill⟩

lemma Tidy.build (h : w.Tidy built) (order : BuildOrder) :
    Does built w (w.build order).2
      (Job.deed (w.builder.map Builder.block) .build (w.build order).1) := by
  have hclear := h.cleared_abandon
  have hbuild := engine_build w.abandon.engine order
  simp only [Worker.build, Engine.build_def]
  generalize w.abandon.engine.build order = r at hbuild ⊢
  obtain ⟨result, engine⟩ := r
  rcases hbuild with ⟨⟨cause, rfl⟩, halike⟩ | ⟨builder, rfl, hchain, htaken, hqueue⟩
  · exact hclear.does_pass halike hclear.builder
  · simp only at hchain htaken hqueue
    refine ⟨?_, ?_, ⟨?_, ?_⟩⟩
    · simp only [Worker.backlog, htaken, hqueue, hclear.backlog, Job.deed, Deed.apply]
    · simp [hchain, hclear.chain, Job.deed, Deed.committed?]
    · exact htaken
    · intro b hb
      exact hb

/-! #### Commits -/

lemma engine_commit (e : Engine n) (builder : Builder n) (witness : Witness) :
    ((∃ cause, (e.commit builder witness).1 = .error cause) ∧
        (e.commit builder witness).2 = e.restore) ∨
      ((e.commit builder witness).1 = .ok () ∧
        (e.commit builder witness).2.chain.blocks = e.chain.blocks ++ [⟨builder.block, witness⟩] ∧
        (e.commit builder witness).2.queue = e.queue.removeIncluded builder.block.transactions ∧
        (e.commit builder witness).2.taken = []) := by
  unfold Engine.commit
  split
  · exact .inl ⟨⟨_, rfl⟩, rfl⟩
  · exact .inl ⟨⟨_, rfl⟩, rfl⟩
  · exact .inr ⟨rfl, rfl, rfl, rfl⟩

/-- A committed block removes what it includes from the queue; what it has taken itself is gone. -/
lemma does_commit {b : Block} {witness : Witness}
    (htaken : ∀ tx ∈ w.engine.taken, tx ∈ b.transactions)
    (hblocks : w'.engine.chain.blocks = w.engine.chain.blocks ++ [⟨b, witness⟩])
    (hqueue : w'.engine.queue = w.engine.queue.removeIncluded b.transactions)
    (hnone : w'.engine.taken = []) (hbuilder : w'.builder = none) :
    Does built w w' (.commit b) where
  backlog := by
    have hgone : w.engine.taken.filter (fun tx => !b.transactions.contains tx) = [] := by
      simpa [List.filter_eq_nil_iff] using htaken
    rw [Worker.backlog, hnone, hqueue, Deed.apply, Worker.backlog, List.filter_append, hgone]
    simp [TxQueue.removeIncluded]
  blocks := by simp [hblocks, Deed.committed?]
  tidy := tidy_of_none hnone (by simp [ownBlock, hbuilder])

lemma Tidy.commit (h : w.Tidy built) (signatures : List (Option Signature)) :
    Does built w (w.commit signatures).2
      (Job.deed (w.builder.map Builder.block) (.commit signatures) (w.commit signatures).1) := by
  unfold Worker.commit
  cases hw : w.builder with
  | none => exact does_pass h (alike_refl _) rfl
  | some b =>
    have hblock := block_collect b (signatures.filterMap id)
    simp only
    generalize BlockBuilder.collect b (signatures.filterMap id) = r at hblock ⊢
    obtain ⟨b', collected⟩ := r
    simp only at hblock
    cases collected with
    | error cause => exact does_pass h (alike_refl _) (by simp [hw, hblock])
    | ok u =>
      have hcases := engine_commit w.engine b' b'.witness
      simp only [Engine.commit_def, Builder.witness_def]
      generalize w.engine.commit b' b'.witness = r at hcases ⊢
      obtain ⟨committed, engine⟩ := r
      rcases hcases with ⟨⟨cause, rfl⟩, hrestored⟩ | ⟨rfl, hblocks, hqueue, hnone⟩
      · simp only at hrestored
        rw [hrestored]
        exact (cleared_restore w).does_pass (alike_refl _) rfl
      · simp only at hblocks hqueue hnone
        rw [hblock] at hblocks hqueue
        refine does_commit ?_ hblocks hqueue hnone rfl
        intro tx htx
        rw [h.taken] at htx
        cases ho : w.ownBlock built with
        | none => simp [ho] at htx
        | some own =>
          have hp := h.pending own ho
          rw [hw, Option.map_some, Option.some.injEq] at hp
          rw [ho] at htx
          rw [hp]
          exact htx

lemma Tidy.add (h : w.Tidy built) (b : SealedBlock) :
    Does built w (w.add b).2 (Job.deed (w.builder.map Builder.block) (.add b) (w.add b).1) := by
  have hclear := h.cleared_abandon
  have halike := alike_load w.abandon.engine b.block
  have hok : ∀ builder, (w.abandon.engine.load b.block).1 = .ok builder → _ := fun _ => load_eq_ok
  simp only [Worker.add, Engine.load_def]
  generalize w.abandon.engine.load b.block = r at halike hok ⊢
  obtain ⟨result, engine⟩ := r
  cases result with
  | error cause => exact hclear.does_pass halike hclear.builder
  | ok builder =>
    obtain ⟨hb, -⟩ := hok builder rfl
    have hcases := engine_commit engine builder b.witness
    simp only [Engine.commit_def]
    generalize engine.commit builder b.witness = r at hcases ⊢
    obtain ⟨committed, engine'⟩ := r
    simp only at halike
    have hloaded : Does built w ⟨engine, none⟩ .pass := hclear.does_pass halike rfl
    rcases hcases with ⟨⟨cause, rfl⟩, hrestored⟩ | ⟨rfl, hblocks, hqueue, hnone⟩
    · simp only at hrestored
      rw [hrestored]
      exact hloaded.trans ((cleared_restore _).does_pass (alike_refl _) hclear.builder)
    · simp only at hblocks hqueue hnone
      rw [hb] at hblocks hqueue
      refine hloaded.trans (does_commit (fun tx htx => ?_) hblocks hqueue hnone hclear.builder)
      rw [halike.taken, hclear.taken] at htx
      cases htx

lemma Tidy.verify (h : w.Tidy built) (s : Signature) : Does built w (w.verify s).2 .pass := by
  unfold Worker.verify
  cases hw : w.builder with
  | none => exact does_pass h (alike_refl _) rfl
  | some b =>
    cases happly : b.applySignature s with
    | error cause =>
      simp only [Builder.applySignature_def, happly]
      exact does_pass h (alike_refl _) rfl
    | ok b' =>
      simp only [Builder.applySignature_def, happly]
      exact does_pass h (alike_refl _) (by simp [hw, block_applySignature happly])

/-- Every job does to the backlog, the chain and the own block what its answer says. -/
theorem Tidy.run (h : w.Tidy built) (order : BuildOrder) (job : Job) :
    Does built w (w.run order job).2
      (job.deed (w.builder.map Builder.block) (w.run order job).1) := by
  cases job with
  | load b => exact h.load b
  | build => exact h.build order
  | add b => exact h.add b
  | commit signatures => exact h.commit signatures
  | verify s => exact h.verify s
  | blockAt height transactions => exact does_pass h (alike_refl _) rfl
  | signatureOf rid => exact does_pass h (alike_refl _) rfl
  | lastHeight => exact does_pass h (alike_refl _) rfl

end Worker

/-! ### Whole runs -/

namespace Pipeline

variable {T : Type} [Submission T] {p : Pipeline (Engine n) (Builder n) T} {built : Option Block}

/-- What can happen next to a pipeline and its engine. -/
inductive Turn (T : Type) where
  | push (tx : Bytes)
  | submit (t : T)
  /-- The worker takes the next task; a build goes by `order`. -/
  | work (order : BuildOrder)
  | stop
  /-- The worker leaves, once it is stopped and has nothing left to do. -/
  | exit
  /-- So many of the next builds and loads are made to fail. -/
  | spoil (builds loads : ℕ)

/-- A turn and what it amounts to. A task is judged by its answer. -/
def turn (p : Pipeline (Engine n) (Builder n) T) :
    Turn T → Deed × Pipeline (Engine n) (Builder n) T
  | .push tx =>
    let e := p.worker.engine
    (.push tx, { p with worker.engine := { e with queue := e.queue.push tx } })
  | .submit t => (.pass, (p.submit t).1)
  | .work order =>
    match p.next order with
    | none => (.pass, p)
    | some (a, p') =>
      ((Submission.job a.task).deed (p.worker.builder.map Builder.block) a.result, p')
  | .stop => (.pass, p.stop)
  | .exit => (.pass, p.exit)
  | .spoil builds loads =>
    let e := p.worker.engine
    (.pass, { p with worker.engine := { e with failBuilds := builds, failLoads := loads } })

/-- The deeds of some turns, and the pipeline after them. -/
def turns : List (Turn T) → Pipeline (Engine n) (Builder n) T →
    List Deed × Pipeline (Engine n) (Builder n) T
  | [], p => ([], p)
  | t :: ts, p =>
    let (d, p) := p.turn t
    let (ds, p) := turns ts p
    (d :: ds, p)

open Worker (Tidy Does Alike alike_refl does_pass)

lemma does_push (h : p.worker.Tidy built) (tx : Bytes) :
    Does built p.worker (p.turn (.push tx)).2.worker (.push tx) where
  backlog := by simp [turn, Worker.backlog, TxQueue.push, Deed.apply]
  blocks := by simp [turn, Deed.committed?]
  tidy := ⟨h.taken, h.pending⟩

omit [Submission T] in
lemma does_exit (h : p.worker.Tidy built) : Does built p.worker p.exit.worker .pass := by
  unfold exit
  split
  · exact h.cleared_abandon.does_pass ⟨rfl, rfl, rfl⟩ h.cleared_abandon.builder
  · exact does_pass h (alike_refl _) rfl

lemma worker_submit (p : Pipeline (Engine n) (Builder n) T) (t : T) :
    (p.submit t).1.worker = p.worker := by
  unfold submit
  split <;> rfl

lemma does_next {order : BuildOrder} {a : Answer T} {p' : Pipeline (Engine n) (Builder n) T}
    (h : p.worker.Tidy built) (hn : p.next order = some (a, p')) :
    Does built p.worker p'.worker
      ((Submission.job a.task).deed (p.worker.builder.map Builder.block) a.result) := by
  unfold next at hn
  split at hn
  · cases hn
  simp only at hn
  split at hn
  · cases hn
    rw [Job.deed_error]
    exact does_pass h (alike_refl _) rfl
  · cases hn
    exact h.run order _

/-- Every turn does what it amounts to. -/
theorem does_turn (h : p.worker.Tidy built) (t : Turn T) :
    Does built p.worker (p.turn t).2.worker (p.turn t).1 := by
  cases t with
  | push tx => exact does_push h tx
  | submit t =>
    have hw : (p.turn (.submit t)).2.worker = p.worker := worker_submit p t
    rw [hw]
    exact does_pass h (alike_refl _) rfl
  | work order =>
    unfold turn
    simp only
    split
    · exact does_pass h (alike_refl _) rfl
    · rename_i a p' hn
      exact does_next h hn
  | stop => exact does_pass h (alike_refl _) rfl
  | exit => exact does_exit h
  | spoil builds loads => exact does_pass h ⟨rfl, rfl, rfl⟩ rfl

lemma does_turns (ts : List (Turn T)) (p : Pipeline (Engine n) (Builder n) T)
    (built : Option Block) (h : p.worker.Tidy built) :
    (turns ts p).2.worker.backlog = (turns ts p).1.foldl Deed.apply p.worker.backlog ∧
      (turns ts p).2.worker.engine.chain.blocks.map (·.block) =
        p.worker.engine.chain.blocks.map (·.block) ++ (turns ts p).1.filterMap Deed.committed? ∧
      (turns ts p).2.worker.Tidy ((turns ts p).1.foldl Deed.lastBuilt built) := by
  induction ts generalizing p built with
  | nil => exact ⟨rfl, (List.append_nil _).symm, h⟩
  | cons t ts ih =>
    have hd := does_turn h t
    obtain ⟨hbacklog, hblocks, htidy⟩ := ih (p.turn t).2 _ hd.tidy
    refine ⟨?_, ?_, htidy⟩
    · rw [hd.backlog] at hbacklog
      exact hbacklog
    · rw [hd.blocks] at hblocks
      rw [turns, hblocks, List.filterMap_cons, List.append_assoc]
      cases (p.turn t).1.committed? <;> rfl

/-- On whatever jobs a pipeline runs, with whatever results, while transactions are pushed: the
taken transactions and the queue are one list, to which a push appends and from which a committed
block removes what it includes, and which is left alone by everything else. The taken ones are those
of the own block under construction, if there is one. The chain grows by the committed blocks. So no
transaction is doubled or overtakes another, and those that no committed block includes are all
there. -/
theorem backlog_is_fifo (e : Engine n) (ts : List (Turn T)) :
    let start : Pipeline (Engine n) (Builder n) T := { worker.engine := { e with taken := [] } }
    let deeds := (turns ts start).1
    let w := (turns ts start).2.worker
    let backlog := w.engine.taken ++ w.engine.queue.txs
    let pushed := deeds.filterMap Deed.pushed?
    let committed := deeds.filterMap Deed.committed?
    let own := if w.builder.isSome then deeds.foldl Deed.lastBuilt none else none
    backlog = deeds.foldl Deed.apply e.queue.txs ∧
      w.engine.taken = own.elim [] Block.transactions ∧
      (∀ b, own = some b → w.builder.map Builder.block = some b) ∧
      w.engine.chain.blocks.map (·.block) = e.chain.blocks.map (·.block) ++ committed ∧
      backlog.Sublist (e.queue.txs ++ pushed) ∧
      backlog.filter (fun tx => ∀ b ∈ committed, tx ∉ b.transactions) =
        (e.queue.txs ++ pushed).filter (fun tx => ∀ b ∈ committed, tx ∉ b.transactions) := by
  intro start deeds w backlog pushed committed own
  have htidy : start.worker.Tidy none := ⟨rfl, nofun⟩
  obtain ⟨hbacklog, hblocks, hown⟩ := does_turns ts start none htidy
  obtain ⟨hsub, hkept⟩ := Deed.foldl_apply deeds e.queue.txs
  have hfold : backlog = deeds.foldl Deed.apply e.queue.txs := hbacklog
  refine ⟨hfold, hown.taken, hown.pending, hblocks, ?sublist, ?kept⟩
  case sublist =>
    rw [hfold]
    exact hsub
  case kept =>
    rw [hfold]
    apply hkept
    intro b hb tx htx
    simp only [decide_eq_false_iff_not]
    exact fun hall => hall b hb htx

end Pipeline

end Conclave

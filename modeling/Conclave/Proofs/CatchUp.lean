import Conclave.Proofs.BuiltBlocks

/-!
# Catching up with another chain

A validator that is behind asks another one for the next block, adds it, and asks again. Every block
of an intact chain passes all checks on the way: it extends the shorter chain, and its witness names
a quorum. So the blocks arrive one after the other, whatever was under construction before, and the
queue loses what they include and nothing else.
-/

namespace Conclave

variable {n : ℕ} {keys : Keyring n} {me : Fin n}

/-! ### The next block of a longer chain -/

namespace Chain

variable {c c' : Chain} {b : SealedBlock} {before rest : List SealedBlock}

lemma lastRid_eq_elim (c : Chain) :
    c.lastRid = (c.blocks.map (·.block)).getLast?.elim .zero Block.rid := by
  unfold lastRid
  rw [List.getLast?_map]
  cases c.blocks.getLast? <;> rfl

/-- A block of an intact chain may follow on every chain that has the blocks before it. -/
lemma Intact.checkExtends (h : c.Intact keys me) (hsplit : c.blocks = before ++ b :: rest)
    (hbefore : c'.blocks.map (·.block) = before.map (·.block)) :
    c'.checkExtends b.block.header = .ok () := by
  have hlength : c'.height = before.length := by
    simpa [Chain.height] using congrArg List.length hbefore
  have hb : c.blocks[before.length]? = some b := by simp [hsplit]
  have hheight : b.block.header.height = c'.height + 1 := by
    rw [hlength]
    exact h.height _ b hb
  have hparent : b.block.header.parent = c'.lastRid := by
    rw [lastRid_eq_elim, hbefore]
    rcases List.eq_nil_or_concat before with rfl | ⟨front, a, rfl⟩
    · exact h.first b hb
    · have ha : c.blocks[front.length]? = some a := by simp [hsplit]
      have hnext : c.blocks[front.length + 1]? = some b := by simpa using hb
      rw [h.parent front.length a b ha hnext]
      simp [SealedBlock.rid]
  unfold Chain.checkExtends
  rw [if_neg (not_not_intro hheight), if_neg (not_not_intro hparent)]

end Chain

lemma Engine.checkWitness_of_genuine {e : Engine n} {b : SealedBlock} (h : b.Genuine e.keys) :
    (e.builder b.block).checkWitness b.witness = .ok () := by
  obtain ⟨signers, hq, hsigners⟩ := h.witnessed
  exact Builder.checkWitness_of_signers h.signed hq hsigners

/-! ### Adding it -/

namespace Worker

variable {w : Worker (Engine n) (Builder n)} {b : SealedBlock}

/-- Abandoning a block concerns the queue only. -/
lemma engine_abandon (w : Worker (Engine n) (Builder n)) :
    w.abandon.engine.chain = w.engine.chain ∧ w.abandon.engine.keys = w.engine.keys ∧
      w.abandon.engine.me = w.engine.me ∧ w.abandon.engine.closed = w.engine.closed ∧
      w.abandon.engine.failLoads = w.engine.failLoads := by
  unfold abandon
  split <;> exact ⟨rfl, rfl, rfl, rfl, rfl⟩

/-- A genuine block without empty transactions that extends the chain is added, and takes what it
includes out of the queue. -/
lemma add_of_extends (hopen : w.engine.closed = false) (hfaults : w.engine.failLoads = 0)
    (hextends : w.engine.chain.checkExtends b.block.header = .ok ())
    (hgenuine : b.Genuine w.engine.keys) (hfull : [] ∉ b.block.transactions) :
    w.add b = (.ok (), ⟨{ w.abandon.engine with
      chain := w.engine.chain.append b ((w.engine.keys.get w.engine.me).sign b.rid)
      queue := w.abandon.engine.queue.removeIncluded b.block.transactions
      taken := [] }, none⟩) := by
  obtain ⟨hchain, hkeys, hme, hclosed, hloads⟩ := engine_abandon w
  rw [← hchain] at hextends
  rw [← hkeys] at hgenuine
  have hload : w.abandon.engine.load b.block =
      (.ok (w.abandon.engine.builder b.block), w.abandon.engine) := by
    rw [Engine.load_of_extends (hclosed.trans hopen) (hloads.trans hfaults) hextends
      hgenuine.contents, if_neg hfull]
  have hagain : w.abandon.engine.chain.checkExtends
    (w.abandon.engine.builder b.block).block.header = .ok () := hextends
  have hcommit : w.abandon.engine.commit (w.abandon.engine.builder b.block) b.witness =
      (.ok (), { w.abandon.engine with
        chain := w.engine.chain.append b ((w.engine.keys.get w.engine.me).sign b.rid)
        queue := w.abandon.engine.queue.removeIncluded b.block.transactions
        taken := [] }) := by
    unfold Engine.commit
    rw [Engine.checkWitness_of_genuine hgenuine, hagain, ← hchain, ← hkeys, ← hme]
    rfl
  simp only [add, Engine.load_def, hload, Engine.commit_def, hcommit, builder_abandon]
  rfl

end Worker

/-! ### Round after round -/

/-- An engine that started with an empty chain, after whatever was done with it and its builders. -/
def Engine.after (e : Engine n) (acts : List Workshop.Act) : Engine n :=
  (Workshop.run ⟨{ e with chain := .empty }, []⟩ acts).engine

lemma Engine.intact_after (e : Engine n) (acts : List Workshop.Act) :
    (e.after acts).keys = e.keys ∧ (e.after acts).chain.Intact e.keys e.me := by
  have hstart : Workshop.Sound e.keys e.me ⟨{ e with chain := .empty }, []⟩ :=
    ⟨⟨rfl, rfl⟩, Chain.intact_empty e.keys e.me, by simp⟩
  have hsound := hstart.run acts
  exact ⟨hsound.engine.1, hsound.chain⟩

namespace Pipeline

open Worker (Tidy tidy_of_none)

/-- A pipeline that started on the engine `e`, with nothing under construction, after some turns. -/
def after (e : Engine n) (ts : List (Turn Job)) : Pipeline (Engine n) (Builder n) Job :=
  (turns ts { worker.engine := { e with taken := [] } }).2

lemma exists_tidy_after (e : Engine n) (ts : List (Turn Job)) :
    ∃ built, (after e ts).worker.Tidy built := by
  have hfresh : Tidy none ⟨{ e with taken := [] }, none⟩ := ⟨rfl, nofun⟩
  obtain ⟨-, -, htidy⟩ := does_turns ts { worker.engine := { e with taken := [] } } none hfresh
  exact ⟨_, htidy⟩

/-- One round: the block after the own chain is asked of `a`, and added at once. There is no next
pipeline if `a` has no such block, or if it is refused. -/
def fetchNext (a : Engine n) (p : Pipeline (Engine n) (Builder n) Job) (order : BuildOrder) :
    Option (Pipeline (Engine n) (Builder n) Job) :=
  match a.blockAt (p.worker.engine.chain.height + 1) true with
  | .ok (some b) =>
    match (p.submit (.add b)).1.next order with
    | some (answer, p) => if answer.result.isOk then some p else none
    | none => none
  | _ => none

/-- A pipeline that runs the next job at once, on an open engine without faults. -/
structure Ready (keys : Keyring n) (p : Pipeline (Engine n) (Builder n) Job) : Prop where
  running : p.stopped = false
  idle : p.queue = []
  opened : p.worker.engine.closed = false
  faultless : p.worker.engine.failLoads = 0
  keyring : p.worker.engine.keys = keys

/-- From `p` to `q` the blocks `added` have been added, and nothing is left under construction. -/
structure Gains (p q : Pipeline (Engine n) (Builder n) Job) (added : List SealedBlock) : Prop where
  blocks : q.worker.engine.chain.blocks = p.worker.engine.chain.blocks ++ added
  queue : q.worker.engine.queue.txs =
    p.worker.backlog.filter fun tx => ∀ b ∈ added, tx ∉ b.block.transactions
  taken : q.worker.engine.taken = []
  builder : q.worker.builder = none

variable {p q r : Pipeline (Engine n) (Builder n) Job} {a : Engine n} {b : SealedBlock}
  {added before rest : List SealedBlock} {built : Option Block}

lemma Gains.trans (h : Gains p q added) (h' : Gains q r rest) : Gains p r (added ++ rest) where
  blocks := by rw [h'.blocks, h.blocks, List.append_assoc]
  queue := by
    rw [h'.queue, Worker.backlog, h.taken, List.nil_append, h.queue, List.filter_filter]
    simp only [List.forall_mem_append, Bool.decide_and, Bool.and_comm]
  taken := h'.taken
  builder := h'.builder

lemma Gains.tidy (h : Gains p q added) (built : Option Block) : q.worker.Tidy built :=
  tidy_of_none h.taken (by simp [Worker.ownBlock, h.builder])

lemma blockAt_of_split (hopen : a.closed = false) (hsplit : a.chain.blocks = before ++ b :: rest) :
    a.blockAt (before.length + 1) true = .ok (some b) := by
  simp [Engine.blockAt, Engine.whenOpen, hopen, Chain.blockAt, hsplit]

/-- A job that is submitted to an idle pipeline is the next one. -/
lemma Ready.next_submit (h : p.Ready keys) (job : Job) (order : BuildOrder) :
    ∃ q, (p.submit job).1.next order = some (⟨job, (p.worker.run order job).1⟩, q) ∧
      q.worker = (p.worker.run order job).2 ∧ q.stopped = false ∧ q.queue = [] := by
  obtain ⟨worker, queue, stopped, exited, queuedBlocks⟩ := p
  obtain ⟨rfl, rfl, -, -, -⟩ := h
  exact ⟨_, rfl, rfl, rfl, rfl⟩

/-- The next block is there, is added, and leaves the pipeline ready for the one after it. -/
lemma Ready.fetchNext (h : p.Ready a.keys) (htidy : p.worker.Tidy built) (hopen : a.closed = false)
    (hintact : a.chain.Intact a.keys me) (hsplit : a.chain.blocks = before ++ b :: rest)
    (hbefore : p.worker.engine.chain.blocks.map (·.block) = before.map (·.block))
    (hfull : [] ∉ b.block.transactions) (order : BuildOrder) :
    ∃ q, p.fetchNext a order = some q ∧ q.Ready a.keys ∧ Gains p q [b] ∧
      q.worker.engine.chain.blocks.map (·.block) = (before ++ [b]).map (·.block) := by
  have hheight : p.worker.engine.chain.height = before.length := by
    simpa [Chain.height] using congrArg List.length hbefore
  have hgenuine : b.Genuine p.worker.engine.keys := by
    rw [h.keyring]
    exact hintact.genuine b (by simp [hsplit])
  have hextends := hintact.checkExtends hsplit hbefore
  have hadd := Worker.add_of_extends h.opened h.faultless hextends hgenuine hfull
  obtain ⟨-, hkeys, -, hclosed, hloads⟩ := Worker.engine_abandon p.worker
  obtain ⟨q, hnext, hworker, hrunning, hidle⟩ := h.next_submit (.add b) order
  change q.worker = (p.worker.add b).2 at hworker
  rw [hadd] at hworker
  have hblocks : q.worker.engine.chain.blocks = p.worker.engine.chain.blocks ++ [b] := by
    rw [hworker]
    rfl
  refine ⟨q, ?fetched, ?ready, ⟨hblocks, ?queue, ?taken, ?builder⟩, ?same⟩
  case fetched =>
    have hok : (p.worker.run order (.add b)).1.isOk = true := congrArg (·.1.isOk) hadd
    simp only [Pipeline.fetchNext, hheight, blockAt_of_split hopen hsplit, hnext]
    exact if_pos hok
  case ready =>
    refine ⟨hrunning, hidle, ?_, ?_, ?_⟩
    · rw [hworker]
      exact hclosed.trans h.opened
    · rw [hworker]
      exact hloads.trans h.faultless
    · rw [hworker]
      exact hkeys.trans h.keyring
  case queue =>
    rw [hworker]
    simp only [TxQueue.removeIncluded, htidy.cleared_abandon.backlog, List.forall_mem_singleton]
  case taken => rw [hworker]
  case builder => rw [hworker]
  case same => rw [hblocks, List.map_append, hbefore, List.map_append]

/-- After some rounds, as many more as blocks are missing. -/
lemma Gains.fetchAll (hopen : a.closed = false) (hintact : a.chain.Intact a.keys me)
    (hfull : ∀ b ∈ a.chain.blocks, [] ∉ b.block.transactions) {orders : List BuildOrder}
    (h : Gains p q added) (hready : q.Ready a.keys) (hsplit : a.chain.blocks = before ++ rest)
    (hbefore : q.worker.engine.chain.blocks.map (·.block) = before.map (·.block))
    (hrounds : orders.length = rest.length) :
    ∃ r, orders.foldlM (Pipeline.fetchNext a) q = some r ∧ Gains p r (added ++ rest) := by
  induction orders generalizing q added before rest with
  | nil =>
    obtain rfl := List.length_eq_zero_iff.mp hrounds.symm
    exact ⟨q, rfl, by simpa using h⟩
  | cons order orders ih =>
    obtain ⟨b, rest, rfl⟩ := List.exists_cons_of_length_eq_add_one hrounds.symm
    have hb : [] ∉ b.block.transactions := hfull b (by simp [hsplit])
    obtain ⟨q', hq, hready', hround, hbefore'⟩ :=
      hready.fetchNext (h.tidy none) hopen hintact hsplit hbefore hb order
    have hsplit' : a.chain.blocks = (before ++ [b]) ++ rest := by simp [hsplit]
    obtain ⟨r, hr, hgains⟩ := ih (h.trans hround) hready' hsplit' hbefore' (by simpa using hrounds)
    refine ⟨r, ?_, by simpa using hgains⟩
    rw [List.foldlM_cons, hq]
    exact hr

/-- A validator whose blocks are the first ones of another's chain catches up with it. The other
chain may have come about in any way. The own pipeline may have a block under construction, from
whatever it has done before. Asking for the next block and adding it succeeds every time, until the
chains have the same blocks, the new ones with the witnesses of the other chain. Then nothing is
under construction, and the queue has what was taken and what was queued before, in this order,
without the transactions of the new blocks. -/
theorem catch_up_completes (e e' : Engine n) (acts : List Workshop.Act) (ts : List (Turn Job))
    (orders : List BuildOrder) :
    let a := e.after acts
    let p := after e' ts
    let height := p.worker.engine.chain.height
    let missing := a.chain.blocks.drop height
    a.closed = false → [] ∉ a.chain.transactions → p.Ready e.keys →
    p.worker.engine.chain.blocks.map (·.block) <+: a.chain.blocks.map (·.block) →
    height < a.chain.height → orders.length = missing.length →
    ∃ q, orders.foldlM (fetchNext a) p = some q ∧
      q.worker.engine.chain.blocks = p.worker.engine.chain.blocks ++ missing ∧
      q.worker.engine.chain.blocks.map (·.block) = a.chain.blocks.map (·.block) ∧
      q.worker.builder = none ∧ q.worker.engine.taken = [] ∧
      q.worker.engine.queue.txs = (p.worker.engine.taken ++ p.worker.engine.queue.txs).filter
        fun tx => ∀ b ∈ missing, tx ∉ b.block.transactions := by
  intro a p height missing hopen hfull hready hprefix hbehind hrounds
  obtain ⟨built, htidy⟩ := exists_tidy_after e' ts
  obtain ⟨hkeys, hintact⟩ := e.intact_after acts
  rw [← hkeys] at hready hintact
  have hfull : ∀ b ∈ a.chain.blocks, [] ∉ b.block.transactions := fun b hb htx =>
    hfull (List.mem_flatMap.mpr ⟨b, hb, htx⟩)
  obtain ⟨before, hsplit, hbefore⟩ : ∃ before, a.chain.blocks = before ++ missing ∧
      p.worker.engine.chain.blocks.map (·.block) = before.map (·.block) := by
    refine ⟨a.chain.blocks.take height, (List.take_append_drop height a.chain.blocks).symm, ?_⟩
    rw [List.map_take]
    simpa [height, Chain.height] using List.prefix_iff_eq_take.mp hprefix
  have hlength : missing.length = a.chain.height - height := List.length_drop
  obtain ⟨b, rest, hrest⟩ := List.exists_cons_of_length_pos (show 0 < missing.length by omega)
  obtain ⟨order, orders, rfl⟩ := List.exists_cons_of_length_pos (show 0 < orders.length by omega)
  rw [hrest] at hsplit hrounds ⊢
  rw [List.length_cons, List.length_cons, Nat.add_right_cancel_iff] at hrounds
  -- The first round abandons what is under construction, and the others find nothing there.
  obtain ⟨p', hp, hready', hround, hbefore'⟩ := hready.fetchNext htidy hopen hintact hsplit
    hbefore (hfull b (by simp [hsplit])) order
  have hsplit' : a.chain.blocks = (before ++ [b]) ++ rest := by simp [hsplit]
  obtain ⟨q, hq, hgains⟩ := hround.fetchAll hopen hintact hfull hready' hsplit' hbefore' hrounds
  refine ⟨q, ?_, hgains.blocks, ?_, hgains.builder, hgains.taken, hgains.queue⟩
  · rw [List.foldlM_cons, hp]
    exact hq
  · rw [hgains.blocks, hsplit, List.map_append, hbefore, ← List.map_append]
    rfl

/-- Validator 1 of four has a block of its own under construction, which it has taken a transaction
for. The block of validator 0 includes that transaction, and one that validator 1 has queued. -/
theorem catch_up_completes_building :
    let keys : Keyring 4 := Vector.ofFn fun i => ⟨[UInt8.ofNat i], [UInt8.ofNat (i + 4)]⟩
    let order (limit : ℕ) : BuildOrder := ⟨limit, fun _ => false, 5000⟩
    let e : Engine 4 := { me := 0, keys }
    let e' : Engine 4 := { me := 1, keys }
    let b := e.nextBlock 5000 [[1], [3]]
    let witness : Witness := ⟨[0, 1, 2].map fun i => (keys.get i).sign b.rid⟩
    let acts : List Workshop.Act := [.push [1], .push [3], .build (order 2), .commit 0 witness]
    let ts : List (Turn Job) := [.push [1], .push [2], .push [3], .submit .build, .work (order 1)]
    (after e' ts).worker.builder.map (·.block.transactions) = some [[1]] ∧
      ∃ q, [order 1].foldlM (fetchNext (e.after acts)) (after e' ts) = some q ∧
        q.worker.engine.chain.blocks = [⟨b, witness⟩] ∧ q.worker.builder = none ∧
        q.worker.engine.queue.txs = [[2]] := by
  intro keys order e e' b witness acts ts
  have hcompletes := catch_up_completes e e' acts ts [order 1]
  have hahead : (e.after acts).closed = false ∧ (e.after acts).chain.blocks = [⟨b, witness⟩] := by
    decide +kernel
  have hbuilding : (after e' ts).worker.builder.map (·.block.transactions) = some [[1]] ∧
      (after e' ts).worker.engine.chain.blocks = [] ∧
      (after e' ts).worker.engine.taken ++ (after e' ts).worker.engine.queue.txs =
        [[1], [2], [3]] := by decide +kernel
  have hable : (after e' ts).stopped = false ∧ (after e' ts).queue = [] ∧
      (after e' ts).worker.engine.closed = false ∧ (after e' ts).worker.engine.failLoads = 0 ∧
      (after e' ts).worker.engine.keys = keys := by decide +kernel
  generalize e.after acts = a at *
  generalize after e' ts = p at *
  obtain ⟨hopen, hblocks⟩ := hahead
  obtain ⟨hpending, hempty, hbacklog⟩ := hbuilding
  have hready : p.Ready keys := ⟨hable.1, hable.2.1, hable.2.2.1, hable.2.2.2.1, hable.2.2.2.2⟩
  have hfull : [] ∉ a.chain.transactions := by
    simp [Chain.transactions, hblocks, b, Engine.nextBlock]
  have hheight : a.chain.height = 1 := congrArg List.length hblocks
  have hzero : p.worker.engine.chain.height = 0 := congrArg List.length hempty
  simp only [hzero, List.drop_zero, hblocks, hheight, hempty, hbacklog] at hcompletes
  obtain ⟨q, hq, hadded, -, hnone, -, hleft⟩ :=
    hcompletes hopen hfull hready List.nil_prefix Nat.one_pos rfl
  refine ⟨hpending, q, hq, hadded, hnone, hleft.trans ?_⟩
  simp [b, Engine.nextBlock]

end Pipeline

end Conclave

import Conclave.Proofs.StoredSignatures

/-!
# What a pending block is good for

A worker gives its pending block up before anything is appended to the chain, so the block extends
the chain as long as it is pending. Valid signatures over it are accepted, and with those of a
quorum it is committed, however long it has been pending.
-/

namespace Conclave

variable {n : ℕ} {keys : Keyring n} {me : Fin n}

namespace Builder

variable {b : Builder n}

/-- Nothing is wrong with verified signatures. -/
lemma Sound.collect_of_valid (h : b.Sound keys me) {l : List Signature}
    (hl : ∀ s ∈ l, ∃ i, keys.verify s b.block.rid = .ok i) :
    ∃ b', BlockBuilder.collect b l = (b', .ok ()) := by
  induction l generalizing b with
  | nil => exact ⟨b, rfl⟩
  | cons s l ih =>
    have hrest : ∀ t ∈ l, ∃ i, keys.verify t b.block.rid = .ok i :=
      fun t ht => hl t (List.mem_cons_of_mem _ ht)
    unfold BlockBuilder.collect
    split
    · exact ih h hrest
    · obtain ⟨i, hi⟩ := hl s List.mem_cons_self
      have happly : b.applySignature s = .ok { b with collected := b.collected.put i (some s) } := by
        simp [Builder.applySignature, h.keyring, hi]
      obtain ⟨-, -, -, hsound⟩ := h.applySignature happly
      rw [Builder.applySignature_def, happly]
      exact ih hsound hrest

end Builder

/-! ### Workers -/

namespace Worker

variable {w w' : Worker (Engine n) (Builder n)} {p b : Block}

/-- The pending block may come next in the chain. -/
def Fitting (w : Worker (Engine n) (Builder n)) : Prop :=
  ∀ p, w.builder.map Builder.block = some p → w.engine.chain.checkExtends p.header = .ok ()

lemma Fitting.of_shrinks (h : w.Fitting) (hchain : w'.engine.chain = w.engine.chain)
    (hp : ∀ p, w'.builder.map Builder.block = some p → w.builder.map Builder.block = some p) :
    w'.Fitting := fun p hp' => by
  rw [hchain]
  exact h p (hp p hp')

lemma fitting_of_none (h : w.builder = none) : w.Fitting := by
  simp [Fitting, h]

lemma extends_of_load {s : Signature} (h : (w.load b).1 = .ok s) :
    w.engine.chain.checkExtends b.header = .ok () := by
  have hextends : ∀ builder, (w.abandon.engine.load b).1 = .ok builder → _ :=
    fun _ hb => extends_of_checkBlock (checkBlock_of_load hb).2
  rw [chain_abandon] at hextends
  simp only [Worker.load, Engine.load_def] at h
  generalize w.abandon.engine.load b = r at h hextends
  obtain ⟨result, engine⟩ := r
  cases result with
  | error cause => cases h
  | ok builder => exact hextends builder rfl

lemma extends_of_build {order : BuildOrder} {s : Signature} (h : (w.build order).1 = .ok (b, s)) :
    w.engine.chain.checkExtends b.header = .ok () := by
  have hextends : ∀ builder, (w.abandon.engine.build order).1 = .ok builder → _ :=
    fun _ => build_eq_ok
  rw [chain_abandon] at hextends
  simp only [Worker.build, Engine.build_def] at h
  generalize w.abandon.engine.build order = r at h hextends
  obtain ⟨result, engine⟩ := r
  cases result with
  | error cause => cases h
  | ok builder =>
    cases h
    exact hextends builder rfl

/-- No job appends to the chain and leaves a pending block, and a new one is made for the chain. -/
theorem Fitting.run (h : w.Fitting) (order : BuildOrder) (job : Job) :
    (w.run order job).2.Fitting := by
  have hran := ran_run w order job
  cases hr : (w.run order job).1 with
  | error cause =>
    rw [hr] at hran
    obtain ⟨hchain, hp⟩ := hran.of_error
    exact h.of_shrinks hchain hp
  | ok reply =>
    rw [hr] at hran
    generalize (w.run order job).2 = w' at hran ⊢
    cases job with
    | load b =>
      have hextends := extends_of_load hr
      cases hran with
      | loaded chain height builder =>
        intro p hp
        rw [builder] at hp
        cases hp
        rwa [chain]
    | build =>
      obtain ⟨b, s⟩ := reply
      have hextends := extends_of_build hr
      cases hran with
      | built chain height builder =>
        intro p hp
        rw [builder] at hp
        cases hp
        rwa [chain]
    | add b =>
      cases hran with
      | added chain height builder => exact fitting_of_none builder
    | commit signatures =>
      cases hran with
      | committed pending chain height builder => exact fitting_of_none builder
    | verify s =>
      cases hran with
      | verified chain builder => exact h.of_shrinks chain fun p hp => builder ▸ hp
    | blockAt =>
      cases hran with
      | read worker => exact worker ▸ h
    | signatureOf =>
      cases hran with
      | signed worker => exact worker ▸ h
    | lastHeight =>
      cases hran with
      | measured worker => exact worker ▸ h

/-- The worker accepts every valid signature over the pending block `b`, and commits it with
signatures of a quorum. -/
structure CanCommit (keys : Keyring n) (me : Fin n) (w : Worker (Engine n) (Builder n))
    (b : Block) : Prop where
  pending : w.builder.map Builder.block = some b
  accepts : ∀ s i, keys.verify s b.rid = .ok i → (w.verify s).1 = true
  commits : ∀ signatures : Table n (Option Signature), quorum n ≤ Manager.filled signatures →
    (∀ i s, signatures.get i = some s → keys.verify s b.rid = .ok i) →
      (w.commit signatures.toList).1 = .ok () ∧ ∃ witness,
        (w.commit signatures.toList).2.engine.chain =
          ⟨w.engine.chain.blocks ++ [⟨b, witness⟩],
            (b.rid, (keys.get me).sign b.rid) :: w.engine.chain.signatures⟩

lemma Keyed.accepts (h : w.Keyed keys me) (hp : w.builder.map Builder.block = some p)
    {s : Signature} {i : Fin n} (hs : keys.verify s p.rid = .ok i) : (w.verify s).1 = true := by
  obtain ⟨builder, hb, rfl⟩ := Option.map_eq_some_iff.mp hp
  have happly : BlockBuilder.applySignature builder s =
      .ok { builder with collected := builder.collected.put i (some s) } := by
    change builder.applySignature s = _
    simp [Builder.applySignature, (h.builder builder hb).keyring, hs]
  simp [Worker.verify, hb, happly]

lemma Keyed.commits (hkeys : Function.Injective fun i => (keys.get i).identity)
    (h : w.Keyed keys me) (hfit : w.Fitting) (hp : w.builder.map Builder.block = some p)
    {signatures : Table n (Option Signature)} (hq : quorum n ≤ Manager.filled signatures)
    (hs : ∀ i s, signatures.get i = some s → keys.verify s p.rid = .ok i) :
    (w.commit signatures.toList).1 = .ok () ∧ ∃ witness,
      (w.commit signatures.toList).2.engine.chain =
        ⟨w.engine.chain.blocks ++ [⟨p, witness⟩],
          (p.rid, (keys.get me).sign p.rid) :: w.engine.chain.signatures⟩ := by
  have hextends := hfit p hp
  obtain ⟨builder, hb, rfl⟩ := Option.map_eq_some_iff.mp hp
  have hsound := h.builder builder hb
  have hvalid : ∀ s ∈ signatures.toList.filterMap id, ∃ i, keys.verify s builder.block.rid = .ok i :=
    fun s hin => by
      obtain ⟨i, hi⟩ := Table.exists_get_of_mem_filterMap hin
      exact ⟨i, hs i s hi⟩
  obtain ⟨b', hcollect⟩ := hsound.collect_of_valid hvalid
  have hfilled := hsound.filled_collect hkeys hq hs hcollect
  have hsound' : b'.Sound keys me := by
    have hall := hsound.collect (signatures.toList.filterMap id)
    rwa [hcollect] at hall
  have hblock : b'.block = builder.block := by
    have hall := block_collect builder (signatures.toList.filterMap id)
    rwa [hcollect] at hall
  have hcommit : BlockEngine.commit w.engine b' (BlockBuilder.witness b') =
      (.ok (), { w.engine with
        chain := w.engine.chain.append ⟨b'.block, b'.witness⟩ b'.signature
        queue := w.engine.queue.removeIncluded b'.block.transactions
        taken := [] }) := by
    change w.engine.commit b' b'.witness = _
    simp only [Engine.commit, hsound'.checkWitness hfilled, hblock, hextends]
  simp only [Worker.commit, hb, hcollect, hcommit]
  refine ⟨rfl, b'.witness, ?_⟩
  rw [hsound'.signature, hblock]
  rfl

/-- A pending block can be committed. -/
theorem Keyed.canCommit (hkeys : Function.Injective fun i => (keys.get i).identity)
    (h : w.Keyed keys me) (hfit : w.Fitting) (hp : w.builder.map Builder.block = some p) :
    w.CanCommit keys me p :=
  ⟨hp, fun _ _ hs => h.accepts hp hs, fun _ hq hs => h.commits hkeys hfit hp hq hs⟩

end Worker

/-! ### Whole runs -/

namespace Executor

variable {x y : Executor n} {heard : ℕ → Rid → Signature → Prop} {fast : Prop}

lemma Pulse.fitting (h : x.pipeline.worker.Fitting) (hpulse : Pulse heard fast x y) :
    y.pipeline.worker.Fitting := by
  cases hpulse with
  | books | rest | follow | tell | stop | supply | conclude | leave => exact h
  | ask | check | operate =>
    rw [submit_worker]
    exact h
  | exit =>
    have hcalm := calm_exit x
    exact h.of_shrinks hcalm.chain hcalm.pendingBlock

lemma Stirs.fitting (h : x.pipeline.worker.Fitting) (hstirs : Stirs heard fast x y) :
    y.pipeline.worker.Fitting := by
  cases hstirs with
  | pulses pulses => exact pulses.invariant (fun _ _ hpulse hx => hpulse.fitting hx) h
  | @work order a p effects next =>
    change p.worker.Fitting
    rcases Pipeline.next_worker next with ⟨hsame, -⟩ | hrun
    · rw [hsame]
      exact h
    · have hfit := h.run order a.task.job
      rwa [hrun] at hfit

end Executor

namespace Runner

variable {v : Validator n} {config : Config} {engine : Engine n} {height wallMillis : ℕ}
  {policy : BuildPolicy} {es : List Happening}

/-- In every run, fast sync or not, a pending block can be committed. -/
theorem canCommit_of_mem_trail (hv : v.toExecutor =
      { manager := .start config engine.me height wallMillis, policy,
        pipeline := ⟨⟨engine, none⟩, [], false, false, 0⟩ })
    (hkeys : Function.Injective fun i => (engine.keys.get i).identity) (time : Duration) :
    ∀ x ∈ (start v time).trail es, ∀ b, x.pendingBlock = some b →
      x.pipeline.worker.CanCommit engine.keys engine.me b := by
  intro x hx b hb
  have hfast : ∀ y ∈ (start v time).trail es, y.inConsensus = false → True := fun _ _ _ => trivial
  have hstart : (start v time).pipeline.worker.Fitting := by
    refine Worker.fitting_of_none ?_
    change v.pipeline.worker.builder = none
    rw [hv]
  have hfit : x.pipeline.worker.Fitting :=
    start_stirs_invariant (P := fun y => y.pipeline.worker.Fitting) hfast
      (fun _ _ hstirs h => hstirs.fitting h) hstart x hx
  exact (vouched_of_mem_trail hv hkeys time x hx).worker.canCommit hkeys hfit hb

end Runner

end Conclave

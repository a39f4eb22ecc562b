import Conclave.Proofs.ValidatorRuns

/-!
# Signatures over blocks of one height

Up to its first fast sync a validator never signs a second block of a height once it is prepared on
one or has one in its chain. A block that is merely at hand is signed on request too and may be
replaced after a view change, and a fast sync takes over blocks of the chain without regard to the
block that the validator is prepared on.
-/

namespace Conclave

variable {n : ℕ}

lemma Chain.Has.unique {c : Chain} {height : ℕ} {rid rid' : Rid} (h : c.Has height rid)
    (h' : c.Has height rid') : rid = rid' := by
  obtain ⟨b, hb, rfl⟩ := h
  obtain ⟨b', hb', rfl⟩ := h'
  rw [hb] at hb'
  cases hb'
  rfl

namespace Executor

open Manager (PreparedOn)

variable {x : Executor n} {b c : Block}

/-! ### One block for each height -/

/-- An executor that has not done anything, at the height after its chain. -/
def fresh (config : Config) (me : Fin n) (wallMillis : ℕ) (policy : BuildPolicy)
    (engine : Engine n) : Executor n where
  manager := .start config me (engine.chain.height + 1) wallMillis
  policy
  pipeline := ⟨⟨engine, none⟩, [], false, false, 0⟩

lemma aligned_fresh (config : Config) (me : Fin n) (wallMillis : ℕ) (policy : BuildPolicy)
    {engine : Engine n} (hchain : engine.chain.Sound)
    (hrange : engine.chain.height < Word.maxUnsigned) :
    (fresh config me wallMillis policy engine).Aligned := by
  have hheight := Manager.height_start config me (engine.chain.height + 1) wallMillis
  have hwaits := Manager.waits_start config me (engine.chain.height + 1) wallMillis
  refine ⟨Manager.coherent_start config me _ wallMillis, ?_, rfl, fun _ => hheight, by simp [fresh],
    by simp [fresh], by simp [fresh], fun hp => absurd hwaits hp, fun hp => absurd hwaits hp,
    fun rid hi => by simp [fresh] at hi, fun height hi => by simp [fresh] at hi, hchain⟩
  change (Manager.start _ _ _ _).own.height ≤ _
  omega

/-- While manager and chain are not level, the answer of the operation that has added to the chain
waits. -/
lemma Aligned.exists_grown (h : x.Aligned) (hahead : ¬x.Level) :
    ∃ (t : Task) (reply : t.job.Reply), ⟨t, .ok reply⟩ ∈ x.answers ∧ x.Reached t reply ∧
      ((∃ b height, t = .add b height) ∨ ∃ b signatures, t = .commit b signatures) := by
  have hbusy : x.busy = true := by
    by_contra hidle
    exact hahead (h.level (by simpa using hidle))
  have hqueue : x.pipeline.queue.countP Task.isOperation = 0 :=
    List.countP_eq_zero.mpr fun t ht hop => hahead (h.queued t ht hop).1
  have hcount := h.count
  rw [hqueue, hbusy, Nat.zero_add] at hcount
  have hpos : 0 < x.answers.countP fun a => a.task.isOperation := by
    rw [hcount]
    exact Nat.one_pos
  obtain ⟨⟨t, result⟩, ha, hop⟩ := List.countP_pos_iff.mp hpos
  have hout := h.answered _ ha
  cases result with
  | error cause => exact (hahead (hout hop).1).elim
  | ok reply =>
    refine ⟨t, reply, ha, hout, ?_⟩
    cases t with
    | build | load => exact (hahead hout.level).elim
    | add b height => exact .inl ⟨b, height, rfl⟩
    | commit b signatures => exact .inr ⟨b, signatures, rfl⟩
    | verify | serveBlock | serveSignature | chainHeight | fastAdd => cases hop

/-- The chain is as high as the manager only while the manager is about to go on: a block was added
for it, or the one it is prepared on was committed. -/
lemma Aligned.waits_or_prepared (h : x.Aligned) {rid : Rid}
    (hhas : x.chain.Has x.manager.own.height rid) :
    x.manager.own.phase = .waitBlock ∨ x.manager.PreparedOn rid := by
  obtain ⟨s, hs, rfl⟩ := hhas
  have hle := (Chain.le_height_of_blockAt hs).2
  have hahead : ¬x.Level := by
    unfold Level
    omega
  obtain ⟨t, reply, -, hout, ⟨b, height, rfl⟩ | ⟨b, signatures, rfl⟩⟩ := h.exists_grown hahead
  · exact .inl hout.1
  · obtain ⟨hprepared, -, hcommitted⟩ := hout
    rw [hcommitted.unique ⟨s, hs, rfl⟩] at hprepared
    exact .inr hprepared

lemma Aligned.rid_eq_of_has (h : x.Aligned) {rid rid' : Rid}
    (hp : x.manager.own.phase ≠ .waitBlock) (hr : x.manager.own.rid = some rid)
    (hhas : x.chain.Has x.manager.own.height rid') : rid = rid' := by
  rcases h.waits_or_prepared hhas with hwaits | hprepared
  · exact (hp hwaits).elim
  · exact Option.some.inj (hr.symm.trans hprepared.2)

/-! ### What is signed -/

/-- The block is in hand. -/
def InHand (x : Executor n) (b : Block) : Prop :=
  x.block = some b ∧ x.manager.own.rid = some b.rid

/-- The block is in the chain, at its height. -/
def InChain (x : Executor n) (b : Block) : Prop :=
  (x.chain.blockAt b.height).map SealedBlock.block = some b

/-- The validator is prepared on the block, or has it in its chain. -/
def Decided (x : Executor n) (b : Block) : Prop :=
  (x.InHand b ∧ x.manager.own.phase = .prepared) ∨ x.InChain b

/-- A signature is sent over the block, which is in hand or in the chain. -/
def Signs (x : Executor n) (b : Block) : Prop :=
  b.rid ∈ x.said ∧ (x.InHand b ∨ x.InChain b)

instance : Decidable (x.InHand b) := inferInstanceAs (Decidable (_ ∧ _))

instance : Decidable (x.InChain b) := inferInstanceAs (Decidable (_ = _))

instance : Decidable (x.Signs b) := inferInstanceAs (Decidable (_ ∧ _))

lemma has_of_inChain (h : x.InChain b) : x.chain.Has b.height b.rid := by
  obtain ⟨s, hs, rfl⟩ := Option.map_eq_some_iff.mp h
  exact ⟨s, hs, rfl⟩

lemma Aligned.exists_inChain (h : x.Aligned) {height : ℕ} {rid : Rid}
    (hc : x.chain.Has height rid) : ∃ b, b.rid = rid ∧ x.InChain b := by
  obtain ⟨s, hs, rfl⟩ := hc
  refine ⟨s.block, rfl, ?_⟩
  unfold InChain
  rw [h.sound.height height s hs, hs]
  rfl

lemma Aligned.holds_inHand (h : x.Aligned) (hb : x.InHand b) :
    x.manager.own.phase ≠ .waitBlock ∧ b.height = x.manager.own.height := by
  have hp : x.manager.own.phase ≠ .waitBlock := fun hw => by
    have hnone := h.coherent.rid_eq_none.mpr hw
    rw [hb.2] at hnone
    cases hnone
  obtain ⟨b', hb', -, hheight⟩ := h.held hp
  rw [hb.1] at hb'
  cases hb'
  exact ⟨hp, hheight⟩

lemma Aligned.exists_signs (h : x.Aligned) {rid : Rid} (hr : rid ∈ x.said) (hb : x.Backs rid) :
    ∃ b, b.rid = rid ∧ x.Signs b := by
  rcases hb with ⟨hp, hown⟩ | ⟨height, hc⟩
  · obtain ⟨b, hb, hrid, -⟩ := h.held hp
    obtain rfl : b.rid = rid := Option.some.inj (hrid.symm.trans hown)
    exact ⟨b, rfl, hr, .inl ⟨hb, hrid⟩⟩
  · obtain ⟨b, rfl, hin⟩ := h.exists_inChain hc
    exact ⟨b, rfl, hr, .inr hin⟩

lemma Aligned.bound_of_decided (h : x.Aligned) (hb : x.Decided b) : x.Bound b.height b.rid := by
  rcases hb with ⟨hb, hp⟩ | hc
  · exact .inl ⟨(h.holds_inHand hb).2.symm, hp, hb.2⟩
  · exact .inr (has_of_inChain hc)

/-- A validator that is bound signs no other block of the height. -/
lemma Aligned.rid_of_signs (h : x.Aligned) {rid : Rid} (hbound : x.Bound b.height rid)
    (hb : x.Signs b) : rid = b.rid := by
  rcases hbound with ⟨hheight, hp⟩ | hhas <;> rcases hb.2 with hhand | hchain
  · exact Option.some.inj (hp.2.symm.trans hhand.2)
  · have hc := has_of_inChain hchain
    rw [← hheight] at hc
    exact h.rid_eq_of_has (by simp [hp.1]) hp.2 hc
  · obtain ⟨hp, hheight⟩ := h.holds_inHand hhand
    rw [hheight] at hhas
    exact (h.rid_eq_of_has hp hhand.2 hhas).symm
  · exact hhas.unique (has_of_inChain hchain)

end Executor

lemma Validator.toExecutor_start {v : Validator n} {config : Config} {me : Fin n} {wallMillis : ℕ}
    {policy : BuildPolicy} {engine : Engine n} {sync : SyncConfig} {now : Duration}
    (h : start (.start config me (engine.chain.height + 1) wallMillis) policy engine sync now =
      .ok v) : v.toExecutor = .fresh config me wallMillis policy engine := by
  obtain ⟨tracker, -, hv⟩ := Manager.exists_of_bind_eq_ok h
  cases hv
  rfl

namespace Runner

variable {v : Validator n} {config : Config} {me : Fin n} {wallMillis : ℕ} {policy : BuildPolicy}
  {engine : Engine n} {es : List Happening}

lemma aligned_start (hv : v.toExecutor = .fresh config me wallMillis policy engine)
    (hchain : engine.chain.Sound) (hrange : engine.chain.height < Word.maxUnsigned)
    (time : Duration) : (start v time).toExecutor.Aligned := by
  have hfresh := Executor.aligned_fresh config me wallMillis policy hchain hrange
  rw [← hv] at hfresh
  exact ((Executor.calm_note v.toExecutor .loopStarted).leads hfresh).aligned

/-! ### Three runs of one validator -/

/-- A block that may follow an empty chain. -/
def firstBlock (timestamp : ℕ) : Block :=
  ⟨⟨contentRid .zero 1 timestamp [], .zero, 1, timestamp⟩, []⟩

lemma height_firstBlock (timestamp : ℕ) : (firstBlock timestamp).height = 1 := rfl

def exampleKeys : Keyring 4 := Vector.ofFn fun i => ⟨[UInt8.ofNat i], [UInt8.ofNat (i + 4)]⟩

def exampleSignature (i : Fin 4) (b : Block) : Signature := (exampleKeys.get i).sign b.rid

/-- The first of four validators, before its first block. -/
def exampleValidator : Validator 4 where
  toExecutor := .fresh {} 0 0 { config := {}, lastBlock := .zero } { me := 0, keys := exampleKeys }
  tracker := ⟨{}, .zero, 1, 0⟩
  sync := {}
  random := .ofSeed 0

/-- The signature of validator `i` by its number. -/
def signatureBy (i : ℕ) (b : Block) : Signature := exampleSignature (Fin.ofNat 4 i) b

/-- Validator `i` reports to hold `b`. -/
def holding (i : ℕ) (serial : ℤ) (round : ℕ) (b : Block) : Happening :=
  .message .zero i (.status ⟨1, serial, round, .haveBlock, some b.rid, false⟩)

/-- The primary of the round hands `b` over, which is loaded. -/
def handingOver (primary : ℕ) (serial : ℤ) (round : ℕ) (b : Block) : List Happening :=
  [holding primary serial round b, .pump .zero, .message .zero primary (.unfinishedBlock b),
    .work .zero, .finish .zero 0]

def asking (b : Block) : Happening := .message .zero 3 (.getBlockSignature b.rid)

/-- A block is prepared and committed, and its signature is asked for before and after. -/
def committingRun : List Happening :=
  let b := firstBlock 1000
  handingOver 1 1 0 b ++ [holding 2 1 0 b, asking b] ++
    [1, 2].flatMap (fun i : Fin 4 => [.message .zero i (.blockSignature b.rid (exampleSignature i b)),
      .work .zero, .finish .zero 0]) ++
    [.work .zero, .finish .zero 0, asking b, .work .zero, .finish .zero 0]

/-- A block in hand is signed, dropped after a view change, and another one signed. -/
def viewChangeRun : List Happening :=
  handingOver 1 1 0 (firstBlock 1000) ++ [asking (firstBlock 1000), .revolt] ++
    [2, 3].map (fun i => .message .zero i (.status ⟨1, 1, 0, .waitBlock, none, true⟩)) ++
    handingOver 2 2 1 (firstBlock 2000) ++ [asking (firstBlock 2000)]

/-- A prepared block is signed, and after that another one that a fast sync has added. -/
def fastSyncRun : List Happening :=
  let a := firstBlock 1000
  let b := firstBlock 2000
  let witness := [1, 2, 3].map (exampleSignature · b)
  handingOver 1 1 0 a ++ [holding 2 1 0 a, asking a] ++
    [1, 2].map (fun i => .message .zero i (.status ⟨5, 2, 0, .waitBlock, none, false⟩)) ++
    [.turn .zero .zero .zero, .turn .zero .zero .zero, .work .zero, .turn .zero .zero .zero,
      .mail 1 (.completeBlock ⟨b, ⟨witness⟩⟩ 1), .turn .zero .zero .zero, .work .zero, asking b,
      .work .zero, .finish .zero 1]

/-- All signatures over blocks of one height are over the same block. -/
def Unequivocal (trail : List (Runner n)) : Prop :=
  ∀ x ∈ trail, ∀ y ∈ trail, ∀ b c, x.Signs b → y.Signs c → b.height = c.height → b.rid = c.rid

lemma not_unequivocal {trail : List (Runner n)} {b c : Block} (hb : ∃ x ∈ trail, x.Signs b)
    (hc : ∃ x ∈ trail, x.Signs c) (hheight : b.height = c.height) (hne : b.rid ≠ c.rid) :
    ¬Unequivocal trail := by
  intro h
  obtain ⟨x, hx, hsx⟩ := hb
  obtain ⟨y, hy, hsy⟩ := hc
  exact hne (h x hx y hy b c hsx hsy hheight)

/-! ### Whole runs -/

/-- As long as there is no fast sync, all that is signed is in hand or in the chain. -/
lemma exists_signs_of_mem_trail (hv : v.toExecutor = .fresh config me wallMillis policy engine)
    (hchain : engine.chain.Sound) (hrange : engine.chain.height < Word.maxUnsigned)
    (time : Duration) (hs : ∀ x ∈ (start v time).trail es, x.inConsensus = true) {x : Runner n}
    (hx : x ∈ (start v time).trail es) : ∀ rid ∈ x.said, ∃ b, b.rid = rid ∧ x.Signs b := by
  intro rid hr
  have h := aligned_start hv hchain hrange time
  have hsaid : v.said = [] := by
    unfold Executor.said
    rw [hv]
    rfl
  have hquiet : ∀ r ∈ (start v time).said, (start v time).Backs r := fun r hr => by
    rw [show (start v time).said = v.said from rfl, hsaid] at hr
    cases hr
  have hbacks := backs_of_mem_trail h hquiet hs x hx rid hr
  exact (aligned_of_mem_trail h hs x hx).1.exists_signs hr hbacks

/-- As long as there is no fast sync, what was decided on earlier binds later. -/
lemma rid_of_decided (hv : v.toExecutor = .fresh config me wallMillis policy engine)
    (hchain : engine.chain.Sound) (hrange : engine.chain.height < Word.maxUnsigned)
    (time : Duration) (hs : ∀ x ∈ (start v time).trail es, x.inConsensus = true) {i j : ℕ}
    {x y : Runner n} (hx : ((start v time).trail es)[i]? = some x)
    (hy : ((start v time).trail es)[j]? = some y) (hij : i ≤ j) {b c : Block}
    (hb : x.Decided b) (hc : y.Signs c) (hheight : b.height = c.height) : b.rid = c.rid := by
  have h := aligned_start hv hchain hrange time
  have hax := (aligned_of_mem_trail h hs x (List.mem_of_getElem? hx)).1
  have hay := (aligned_of_mem_trail h hs y (List.mem_of_getElem? hy)).1
  have hbinds : Binds x y := by
    obtain ⟨hi, rfl⟩ := List.getElem?_eq_some_iff.mp hx
    obtain ⟨hj, rfl⟩ := List.getElem?_eq_some_iff.mp hy
    rcases hij.lt_or_eq with hlt | rfl
    · exact List.pairwise_iff_getElem.mp (pairwise_binds_trail h hs) i j hi hj hlt
    · exact fun _ _ hr => hr
  have hbound := hbinds _ _ (hax.bound_of_decided hb)
  rw [hheight] at hbound
  exact hay.rid_of_signs hbound hc

/-- In every run up to its first fast sync, whatever the peers say and whenever tasks are done, all
that a validator signs is in its hand or in its chain at that moment. Once it is prepared on a block
or has it in its chain, it signs no other block of that height. -/
theorem signatures_agree (hv : v.toExecutor = .fresh config me wallMillis policy engine)
    (hchain : engine.chain.Sound) (hrange : engine.chain.height < Word.maxUnsigned)
    (time : Duration) :
    let trail := (start v time).trail es
    ∀ (j : ℕ) (y : Runner n), trail[j]? = some y →
      (∀ x ∈ trail.take (j + 1), x.inConsensus = true) →
        (∀ rid ∈ y.said, ∃ b, b.rid = rid ∧ y.Signs b) ∧
          ∀ (i : ℕ) (x : Runner n), trail[i]? = some x → i ≤ j →
            ∀ b c, x.Decided b → y.Signs c → b.height = c.height → b.rid = c.rid := by
  intro trail j y hy hs
  -- What happens later does not matter, so the run may end at this moment.
  have hsame : ∀ i ≤ j, ((start v time).trail (es.take j))[i]? = trail[i]? := fun i hij => by
    rw [← trail_take]
    exact List.getElem?_take_of_lt (by omega)
  rw [trail_take] at hs
  rw [← hsame j le_rfl] at hy
  refine ⟨exists_signs_of_mem_trail hv hchain hrange time hs (List.mem_of_getElem? hy), ?_⟩
  intro i x hx hij b c hb hc
  rw [← hsame i hij] at hx
  exact rid_of_decided hv hchain hrange time hs hx hy hij hb hc

/-- The signature of a committed block is the one that was given when it was prepared. -/
theorem signatures_agree_committed :
    let trail := (start exampleValidator .zero).trail committingRun
    let b := firstBlock 1000
    (∀ x ∈ trail, x.inConsensus = true) ∧ trail.flatMap (·.said) = [b.rid, b.rid] ∧
      ∀ (i j : ℕ) (x y : Runner 4), trail[i]? = some x → trail[j]? = some y → i ≤ j →
        ∀ b c, x.Decided b → y.Signs c → b.height = c.height → b.rid = c.rid := by
  intro trail b
  have hv : exampleValidator.toExecutor =
    .fresh {} 0 0 { config := {}, lastBlock := .zero } { me := 0, keys := exampleKeys } := rfl
  have hs : ∀ x ∈ (start exampleValidator .zero).trail committingRun, x.inConsensus = true := by
    decide +kernel
  have hsaid : trail.flatMap (·.said) = [b.rid, b.rid] := by decide +kernel
  refine ⟨hs, hsaid, fun i j x y hx hy hij => ?_⟩
  have hearlier : ∀ z ∈ trail.take (j + 1), z.inConsensus = true := fun z hz =>
    hs z (List.mem_of_mem_take hz)
  exact (signatures_agree hv Chain.sound_empty (by decide) .zero j y hy hearlier).2 i x hx hij

/-- Neither a block that was only in hand nor one that fast sync passes over binds the validator. -/
theorem signatures_differ :
    ¬Unequivocal ((start exampleValidator .zero).trail viewChangeRun) ∧
      ¬Unequivocal ((start exampleValidator .zero).trail fastSyncRun) := by
  have hne : (firstBlock 1000).rid ≠ (firstBlock 2000).rid := by decide +kernel
  have hheight := (height_firstBlock 1000).trans (height_firstBlock 2000).symm
  constructor
  · have hfirst : ∃ x ∈ (start exampleValidator .zero).trail viewChangeRun,
        x.Signs (firstBlock 1000) := by decide +kernel
    have hsecond : ∃ x ∈ (start exampleValidator .zero).trail viewChangeRun,
        x.Signs (firstBlock 2000) := by decide +kernel
    exact not_unequivocal hfirst hsecond hheight hne
  · have hfirst : ∃ x ∈ (start exampleValidator .zero).trail fastSyncRun,
        x.Signs (firstBlock 1000) := by decide +kernel
    have hsecond : ∃ x ∈ (start exampleValidator .zero).trail fastSyncRun,
        x.Signs (firstBlock 2000) := by decide +kernel
    exact not_unequivocal hfirst hsecond hheight hne

end Runner

end Conclave

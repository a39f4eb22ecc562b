import Conclave.Proofs.ExecutorConsistency
import Conclave.Proofs.PendingBlock

/-!
# The block in hand after a fast sync that failed

A fast sync that ends where it began leaves a prepared block in hand. The pipeline still has it
pending, and can commit it, unless the fast sync handed over a fetched block: the worker gives its
pending block up for every one, also for one that it then turns down.
-/

namespace Conclave

variable {n : ℕ}

namespace Executor

open Manager (Keeps PreparedOn)

variable {x y z : Executor n} {heard : ℕ → Rid → Signature → Prop} {fast : Prop} {a : Answer Task}
  {answers : List (Answer Task)}

/-! ### The own height -/

/-- The height does not fall, and a prepared block goes with its height only. -/
lemma Pulse.keeps (ho : x.Orderly) (hpulse : Pulse heard fast x y) : Keeps x.manager y.manager := by
  cases hpulse with
  | books | rest | follow | ask | check | operate | exit | stop | supply =>
    exact Manager.keeps_of_own_eq rfl
  | tell input => exact ho.coherent.keeps_respond input
  | conclude answered told =>
    cases told with
    | nothing => exact Manager.keeps_of_own_eq rfl
    | report => exact ho.coherent.keeps_respond _
  | leave committed => exact ho.coherent.keeps_respond _

lemma Stirs.keeps (ho : x.Orderly) (hstirs : Stirs heard fast x y) : Keeps x.manager y.manager := by
  cases hstirs with
  | pulses pulses =>
    have hall : y.Orderly ∧ Keeps x.manager y.manager := by
      refine pulses.invariant (P := fun z => z.Orderly ∧ Keeps x.manager z.manager) ?_
        ⟨ho, Manager.keeps_of_own_eq rfl⟩
      rintro z w hpulse ⟨hz, hk⟩
      exact ⟨hz.pulse hpulse, hk.trans (hpulse.keeps hz)⟩
    exact hall.2
  | work => exact Manager.keeps_of_own_eq rfl

/-! ### The block in hand at one height -/

/-- From `x` to `y`, a block in hand at the same height is the one of before, and none is
brought. -/
structure Follows (x y : Executor n) : Prop where
  held : y.manager.own.height = x.manager.own.height → y.manager.own.phase ≠ .waitBlock →
    x.manager.own.phase ≠ .waitBlock ∧ y.manager.own.rid = x.manager.own.rid ∧ y.block = x.block
  settled : (∀ a ∈ x.answers, a.brought? = none) → ∀ a ∈ y.answers, a.brought? = none

lemma follows_of_same (hm : y.manager = x.manager) (hb : y.block = x.block)
    (ha : ∀ a ∈ y.answers, a ∈ x.answers ∨ a.brought? = none) : Follows x y where
  held _ hp := by
    rw [hm] at hp ⊢
    exact ⟨hp, rfl, hb⟩
  settled hx a hy := (ha a hy).elim (hx a) id

lemma Follows.trans (h : Follows x y) (h' : Follows y z) (hk : Keeps x.manager y.manager)
    (hk' : Keeps y.manager z.manager) : Follows x z where
  held hh hp := by
    have hle := hk.height_le
    have hle' := hk'.height_le
    obtain ⟨hy, hr, hb⟩ := h'.held (by omega) hp
    obtain ⟨hx, hr', hb'⟩ := h.held (by omega) hy
    exact ⟨hx, hr.trans hr', hb.trans hb'⟩
  settled hx := h'.settled (h.settled hx)

lemma follows_submit (x : Executor n) (busy : Bool) (intent : Intent) (t : Task) :
    Follows x ({ x with busy, intent }.submit t) := by
  refine follows_of_same rfl rfl fun a ha => ?_
  rcases submit_tasks { x with busy, intent } t with ⟨-, hsame⟩ | ⟨-, hnew⟩
  · rw [hsame] at ha
    exact .inl ha
  · rw [hnew] at ha
    rcases List.mem_append.mp ha with hold | hrefused
    · exact .inl hold
    · rw [List.mem_singleton.mp hrefused]
      cases t <;> exact .inr rfl

/-- An input that brings no block leaves one in hand, or takes it away. -/
lemma follows_respond {input : Manager.Input} (ht : input.takes = false) {busy : Bool}
    (ha : ∀ a ∈ answers, a ∈ x.answers) :
    Follows x { x with manager := (x.manager.respond input).1, answers, busy } where
  held _ hp := by
    obtain ⟨hx, hr⟩ := Manager.steady_respond input ht hp
    exact ⟨hx, hr, rfl⟩
  settled hx a hy := hx a (ha a hy)

/-- A manager that waits for a block has none in hand. -/
lemma follows_waiting {manager : Manager n} (hwaits : manager.own.phase = .waitBlock)
    {block : Option Block} {busy : Bool} (ha : ∀ a ∈ answers, a ∈ x.answers) :
    Follows x { x with manager, answers, block, busy } where
  held _ hp := absurd hwaits hp
  settled hx a hy := hx a (ha a hy)

lemma follows_conclude (ho : x.Orderly) (hsettled : ∀ a ∈ x.answers, a.brought? = none)
    (hperm : x.answers.Perm (a :: answers)) {manager : Manager n} {block : Option Block}
    (told : x.Tells a manager block) :
    Follows x { x with manager, answers, block, busy := !a.task.isOperation && x.busy } := by
  have hmem : ∀ c ∈ answers, c ∈ x.answers := fun c hc =>
    hperm.mem_iff.mpr (List.mem_cons_of_mem _ hc)
  have hbrought := hsettled a (hperm.mem_iff.mpr List.mem_cons_self)
  cases told with
  | nothing => exact follows_of_same rfl rfl fun c hc => .inl (hmem c hc)
  | @report t reply input said =>
    have hsuits : t.isOperation = true → x.Suits t := ho.suits_answer hperm
    cases t with
    | build | load => cases hbrought
    | add b height =>
      cases said
      exact follows_waiting (Orderly.waits_of_grown (.inl ⟨height + 1, rfl⟩)
        (.inl ((hsuits rfl).waits (by simp)))) hmem
    | commit b signatures =>
      cases said
      exact follows_waiting (Orderly.waits_of_committed (hsuits rfl)) hmem
    | verify sender rid s =>
      simp only [Task.report?] at said
      split at said
      · cases said
        exact follows_respond rfl hmem
      · cases said
    | serveBlock | serveSignature | chainHeight | fastAdd => cases said

lemma follows_leave (x : Executor n) (committed : ℕ) :
    Follows x { x with
      manager := (x.manager.respond (.fastForward committed)).1
      block := x.blockAfterSync committed } := by
  rcases Manager.respond_fastForward x.manager committed with hwaits | hown
  · exact follows_waiting hwaits fun _ ha => ha
  · have hblock := blockAfterSync_of_own_eq hown
    refine ⟨fun _ hp => ⟨?_, congrArg (·.rid) hown, hblock⟩, id⟩
    rw [← hown]
    exact hp

lemma Pulse.follows (ho : x.Orderly) (hsettled : ∀ a ∈ x.answers, a.brought? = none)
    (hpulse : Pulse heard fast x y) : Follows x y := by
  cases hpulse with
  | books | rest | follow | exit | stop | supply =>
    exact follows_of_same rfl rfl fun _ ha => .inl ha
  | tell input plain => exact follows_respond (Manager.takes_of_isPlain plain) fun _ ha => ha
  | ask t => exact follows_submit x x.busy x.intent t
  | check sender rid s => exact follows_submit x x.busy x.intent _
  | operate t => exact follows_submit x true .doNothing t
  | conclude answered told => exact follows_conclude ho hsettled answered told
  | leave committed => exact follows_leave x committed

/-- A validator with a block in hand has no other one on its way. -/
lemma Orderly.settled (ho : x.Orderly) (hp : x.manager.own.phase ≠ .waitBlock)
    (ha : a.task ∈ x.outstanding) : a.brought? = none := by
  cases hb : a.brought? with
  | none => rfl
  | some b =>
    rcases ho.suits a.task ha (Answer.isOperation_of_brought hb) with hwaits | ⟨c, s, heq, -⟩
    · exact absurd hwaits hp
    · obtain ⟨t, result⟩ := a
      cases heq
      cases hb

theorem Stirs.follows (ho : x.Orderly) (hp : x.manager.own.phase ≠ .waitBlock)
    (hstirs : Stirs heard fast x y) : Follows x y := by
  cases hstirs with
  | pulses pulses =>
    have hsettled : ∀ a ∈ x.answers, a.brought? = none := fun a ha =>
      ho.settled hp (task_mem_outstanding ha)
    have hall : y.Orderly ∧ Keeps x.manager y.manager ∧ Follows x y := by
      refine pulses.invariant
        (P := fun z => z.Orderly ∧ Keeps x.manager z.manager ∧ Follows x z) ?_
        ⟨ho, Manager.keeps_of_own_eq rfl, follows_of_same rfl rfl fun _ ha => .inl ha⟩
      rintro z w hpulse ⟨hz, hk, hf⟩
      have hk' := hpulse.keeps hz
      exact ⟨hz.pulse hpulse, hk.trans hk',
        hf.trans (hpulse.follows hz (hf.settled hsettled)) hk hk'⟩
    exact hall.2.2
  | @work order a p effects next =>
    refine follows_of_same rfl rfl fun c hc => ?_
    rcases List.mem_append.mp hc with hold | hnew
    · exact .inl hold
    · obtain ⟨hqueue, -⟩ := Pipeline.next_cases next
      rw [List.mem_singleton.mp hnew]
      exact .inr (ho.settled hp (by simp [outstanding, hqueue]))

/-- A commit that is done was one of the block in hand, which the manager is yet to leave behind. -/
lemma Orderly.exists_committed (ho : x.Orderly) (hp : x.manager.own.phase ≠ .waitBlock)
    (hloyal : ∀ a ∈ x.answers, a.failsCommit = false) (ha : a ∈ x.answers)
    (hc : a.task.isCommit = true) : ∃ b signatures, x.manager.own.rid = some b.rid ∧
      ⟨.commit b signatures, .ok ()⟩ ∈ x.answers := by
  have hmem := task_mem_outstanding ha
  have hdone := hloyal a ha
  obtain ⟨t, result⟩ := a
  cases t with
  | commit b signatures =>
    cases result with
    | error cause => cases hdone
    | ok reply =>
      rcases ho.suits _ hmem rfl with hwaits | ⟨c, signatures', heq, hprepared⟩
      · exact absurd hwaits hp
      · cases heq
        exact ⟨b, signatures, hprepared.2, ha⟩
  | build | load | add | verify | serveBlock | serveSignature | chainHeight | fastAdd => cases hc

/-- What is brought is not yet in hand, so a validator with a block in hand is stocked with it as
soon as it is pending. -/
lemma Orderly.stocked (ho : x.Orderly) (hp : x.manager.own.phase ≠ .waitBlock)
    (hloyal : ∀ a ∈ x.answers, a.failsCommit = false) (hpending : x.pendingBlock = x.block) :
    x.Stocked where
  loyal := hloyal
  pending _ _ := hpending
  brought a ha b hb := by
    have hnone := ho.settled hp (task_mem_outstanding ha)
    rw [hnone] at hb
    cases hb

end Executor

/-! ### Two moments at one height -/

namespace Runner

open Manager (Keeps)

variable {v : Validator n} {config : Config} {engine : Engine n} {height wallMillis : ℕ}
  {policy : BuildPolicy} {es : List Happening} {i j : ℕ} {x y : Runner n}

lemma keeps_between (hv : v.toExecutor =
      { manager := .start config engine.me height wallMillis, policy,
        pipeline := ⟨⟨engine, none⟩, [], false, false, 0⟩ }) (time : Duration) (hij : i ≤ j)
    (hx : ((start v time).trail es)[i]? = some x) (hy : ((start v time).trail es)[j]? = some y) :
    Keeps x.manager y.manager := by
  refine orderly_between (P := fun z => Keeps x.manager z.manager) hv time hij hx hy ?_
    (Manager.keeps_of_own_eq rfl)
  intro k a b _ _ _ _ ho hstirs hk
  exact hk.trans (hstirs.keeps ho)

/-- A validator that does not wait for another block at its height keeps the one in its hand. -/
lemma held_between (hv : v.toExecutor =
      { manager := .start config engine.me height wallMillis, policy,
        pipeline := ⟨⟨engine, none⟩, [], false, false, 0⟩ }) (time : Duration) (hij : i ≤ j)
    (hx : ((start v time).trail es)[i]? = some x) (hy : ((start v time).trail es)[j]? = some y)
    (hheight : y.manager.own.height = x.manager.own.height)
    (hhas : Throughout ((start v time).trail es) i j fun z => z.manager.own.phase ≠ .waitBlock) :
    y.manager.own.rid = x.manager.own.rid ∧ y.block = x.block := by
  refine orderly_between
    (P := fun z => z.manager.own.height = x.manager.own.height →
      z.manager.own.rid = x.manager.own.rid ∧ z.block = x.block) hv time hij hx hy ?_
    (fun _ => ⟨rfl, rfl⟩) hheight
  intro k a b hik hkj ha hb ho hstirs hheld hheight
  have hbefore := (keeps_between hv time hik hx ha).height_le
  have hafter := (hstirs.keeps ho).height_le
  have hfollows := hstirs.follows ho (hhas k a hik hkj.le ha)
  obtain ⟨-, hr, hblock⟩ := hfollows.held (by omega) (hhas (k + 1) b (by omega) hkj hb)
  obtain ⟨hr', hblock'⟩ := hheld (by omega)
  exact ⟨hr.trans hr', hblock.trans hblock'⟩

/-- A prepared validator stays prepared on its block as long as its height is the same. -/
lemma prepared_throughout (hv : v.toExecutor =
      { manager := .start config engine.me height wallMillis, policy,
        pipeline := ⟨⟨engine, none⟩, [], false, false, 0⟩ }) (time : Duration)
    (hx : ((start v time).trail es)[i]? = some x) (hy : ((start v time).trail es)[j]? = some y)
    (hheight : y.manager.own.height = x.manager.own.height) {rid : Rid}
    (hp : x.manager.PreparedOn rid) :
    Throughout ((start v time).trail es) i j fun z => z.manager.PreparedOn rid := by
  intro k z hik hkj hz
  have hbefore := keeps_between hv time hik hx hz
  have hafter := (keeps_between hv time hkj hz hy).height_le
  rcases hbefore.block rid hp with hlt | ⟨-, hprepared⟩
  · omega
  · exact hprepared

/-- Between two moments with the same own height, such as the start and the end of a fast sync that
has failed, a prepared block is kept in hand, whatever peers send. So is a block that the validator
is not prepared on, unless the manager drops it. The pipeline can still commit the block if it could
before, or has just committed it: it was not stopped, was given no fetched block past the executor,
and no commit has failed. -/
theorem failed_sync_keeps_block (hv : v.toExecutor =
      { manager := .start config engine.me height wallMillis, policy,
        pipeline := ⟨⟨engine, none⟩, [], false, false, 0⟩ })
    (hkeys : Function.Injective fun i => (engine.keys.get i).identity) (time : Duration)
    (hij : i ≤ j) (hx : ((start v time).trail es)[i]? = some x)
    (hy : ((start v time).trail es)[j]? = some y)
    (hheight : y.manager.own.height = x.manager.own.height)
    (hhas : x.manager.own.phase = .prepared ∨
      Throughout ((start v time).trail es) i j fun z => z.manager.own.phase ≠ .waitBlock) :
    (x.manager.own.phase = .prepared → y.manager.own.phase = .prepared) ∧
      ∃ b, x.manager.own.rid = some b.rid ∧ y.manager.own.rid = some b.rid ∧
        x.block = some b ∧ y.block = some b ∧
          (x.pendingBlock = some b → (Throughout ((start v time).trail es) i j fun z => z.Spared) →
            y.pipeline.worker.CanCommit engine.keys engine.me b ∨
              ∃ c signatures, c.rid = b.rid ∧ ⟨.commit c signatures, .ok ()⟩ ∈ y.answers) := by
  have hox := orderly_of_mem_trail hv time x (List.mem_of_getElem? hx)
  have hoy := orderly_of_mem_trail hv time y (List.mem_of_getElem? hy)
  have hprepared : ∀ rid, x.manager.PreparedOn rid →
      Throughout ((start v time).trail es) i j fun z => z.manager.PreparedOn rid :=
    fun rid hp => prepared_throughout hv time hx hy hheight hp
  have hthroughout :
      Throughout ((start v time).trail es) i j fun z => z.manager.own.phase ≠ .waitBlock := by
    rcases hhas with hp | hhas
    · obtain ⟨b, -, hr⟩ := hox.held (by simp [hp])
      intro k z hik hkj hz
      simp [(hprepared b.rid ⟨hp, hr⟩ k z hik hkj hz).1]
    · exact hhas
  have hpx := hthroughout i x le_rfl hij hx
  have hpy := hthroughout j y hij le_rfl hy
  obtain ⟨b, hb, hr⟩ := hox.held hpx
  obtain ⟨hsame, hblock⟩ := held_between hv time hij hx hy hheight hthroughout
  refine ⟨fun hp => (hprepared b.rid ⟨hp, hr⟩ j y hij le_rfl hy).1, b, hr, hsame.trans hr, hb,
    hblock.trans hb, fun hpending hspared => ?_⟩
  have hstocked := stocked_between hv time hij hx hy hspared
    (hox.stocked hpx (hspared i x le_rfl hij hx).2 (hpending.trans hb.symm))
  by_cases hnone : ∀ a ∈ y.answers, a.task.isCommit = false
  · left
    refine canCommit_of_mem_trail hv hkeys time y (List.mem_of_getElem? hy) b ?_
    exact (hstocked.pending hpy hnone).trans (hblock.trans hb)
  · right
    push Not at hnone
    obtain ⟨a, ha, hc⟩ := hnone
    obtain ⟨c, signatures, hr', hdone⟩ := hoy.exists_committed hpy (hspared j y hij le_rfl hy).2 ha
      (by simpa using hc)
    exact ⟨c, signatures, Option.some.inj (hr'.symm.trans (hsame.trans hr)), hdone⟩

/-! ### Fast syncs that fail -/

/-- The loop goes on after so many seconds. -/
def waking (seconds : ℕ) : Happening :=
  let time := .ofMillis (1000 * seconds)
  .turn time time time

/-- A validator is prepared on the first block when its fast sync starts. -/
def startingSync : List Happening :=
  let a := firstBlock 1000
  handingOver 1 1 0 a ++ [holding 2 1 0 a] ++
    [1, 2].map (fun i => .message .zero i (.status ⟨5, 2, 0, .waitBlock, none, false⟩)) ++
    [waking 0, waking 0, .work .zero, waking 0]

/-- For want of answers the fast sync ends. -/
def timingOut : List Happening := [1, 2, 3, 4].map waking ++ [.work .zero, waking 5]

/-- There is one fast sync between the moments `i` and `j`. -/
def SyncsBetween (trail : List (Runner n)) (i j : ℕ) : Prop :=
  i + 1 < j ∧ ((trail.take (j + 1)).drop i).map inConsensus =
    true :: List.replicate (j - i - 1) false ++ [true]

instance (trail : List (Runner n)) (i j : ℕ) : Decidable (SyncsBetween trail i j) :=
  inferInstanceAs (Decidable (_ ∧ _))

/-- Nobody answers during a fast sync, and afterwards the prepared block can be committed. -/
theorem failed_sync_keeps_block_unanswered :
    let trail := (start exampleValidator .zero).trail (startingSync ++ timingOut)
    SyncsBetween trail 8 18 ∧ ∃ y, trail[18]? = some y ∧ y.manager.own.phase = .prepared ∧
      ∃ b, y.manager.own.rid = some b.rid ∧ y.pipeline.worker.CanCommit exampleKeys 0 b := by
  intro trail
  let engine : Engine 4 := { me := 0, keys := exampleKeys }
  have hv : exampleValidator.toExecutor =
      { manager := .start {} engine.me 1 0, policy := { config := {}, lastBlock := .zero },
        pipeline := ⟨⟨engine, none⟩, [], false, false, 0⟩ } := rfl
  have hcalm : ∀ z ∈ trail, z.pipeline.stopped = false ∧
      (∀ t ∈ z.pipeline.queue, t.job.isAdd = false) ∧ ∀ a ∈ z.answers, a.failsCommit = false := by
    decide +kernel
  have hspared : Throughout trail 8 18 fun z => z.Spared := fun k z _ _ hz => by
    obtain ⟨hrunning, hqueue, hloyal⟩ := hcalm z (List.mem_of_getElem? hz)
    exact ⟨⟨hrunning, fun b hb => by cases hqueue _ hb⟩, hloyal⟩
  have hends : SyncsBetween trail 8 18 ∧ ∃ x ∈ trail[8]?, ∃ y ∈ trail[18]?,
      x.manager.own.phase = .prepared ∧ y.manager.own.height = x.manager.own.height ∧
        x.pendingBlock = x.block ∧ y.answers.isEmpty = true := by
    decide +kernel
  obtain ⟨hsync, x, hx, y, hy, hprepared, hheight, hpending, hdone⟩ := hends
  obtain ⟨hkept, b, -, hr, hb, -, hcan⟩ := failed_sync_keeps_block hv injective_exampleKeys .zero
    (by decide) hx hy hheight (.inl hprepared)
  refine ⟨hsync, y, hy, hkept hprepared, b, hr, ?_⟩
  rcases hcan (hpending.trans hb) hspared with hcan | ⟨c, signatures, -, hmem⟩
  · exact hcan
  · rw [List.isEmpty_iff.mp hdone] at hmem
    cases hmem

/-! #### Blocks that are lost -/

/-- Every fast sync that ends at the height where it began leaves a block in hand that could be
committed as it is. -/
def SyncsKeepBlocks (trail : List (Runner n)) : Prop :=
  ∀ i j, SyncsBetween trail i j → ∀ x ∈ trail[i]?, ∀ y ∈ trail[j]?,
    y.manager.own.height = x.manager.own.height → ∀ b, x.manager.own.rid = some b.rid →
      x.pendingBlock = some b →
        y.manager.own.rid = some b.rid ∧ y.block = some b ∧ y.pendingBlock = some b

lemma not_syncsKeepBlocks {trail : List (Runner n)} (i j : ℕ) (b : Block)
    (hlost : SyncsBetween trail i j ∧ ∃ x ∈ trail[i]?, ∃ y ∈ trail[j]?,
      y.manager.own.height = x.manager.own.height ∧ x.manager.own.rid = some b.rid ∧
        x.pendingBlock = some b ∧
          ¬(y.manager.own.rid = some b.rid ∧ y.block = some b ∧ y.pendingBlock = some b)) :
    ¬SyncsKeepBlocks trail := by
  intro h
  obtain ⟨hs, x, hx, y, hy, hheight, hr, hp, hlost⟩ := hlost
  exact hlost (h i j hs x hx y hy hheight b hr hp)

/-- A fetched block is turned down for its empty witness. -/
def spoiledRun : List Happening :=
  startingSync ++ [.mail 1 (.completeBlock ⟨firstBlock 2000, ⟨[]⟩⟩ 1), waking 0, .work .zero,
    waking 0, .work .zero, waking 0] ++ [1, 2, 3].map waking ++ [.work .zero, waking 4]

/-- Two peers send a signature each. -/
def signing (signatures : List Signature) : List Happening :=
  (signatures.zip [1, 2]).flatMap fun (s, sender) =>
    [.mail sender (.blockSignature (firstBlock 1000).rid s), waking 0, .work .zero, .finish .zero 0]

/-- The own signature is relayed by two peers, and the commit fails for want of signers. -/
def relayedRun : List Happening :=
  let own := signatureBy 0 (firstBlock 1000)
  startingSync ++ signing [own, own] ++ [.work .zero] ++ timingOut

/-- The block is committed after the fast sync has read the height of the chain. -/
def committedRun : List Happening :=
  let a := firstBlock 1000
  startingSync ++ signing [signatureBy 1 a] ++
    [.mail 2 (.blockSignature a.rid (signatureBy 2 a)), waking 0, .work .zero] ++
    [1, 2, 3, 4].map waking ++ [.work .zero, .finish .zero 0, .work .zero, waking 5]

/-- The pipeline is stopped. -/
def stoppedRun : List Happening := startingSync ++ [.stop, .work .zero] ++ timingOut

/-- An empty block on top of the first one. -/
def secondBlock : Block :=
  ⟨⟨contentRid (firstBlock 1000).rid 2 2000 [], (firstBlock 1000).rid, 2, 2000⟩, []⟩

/-- A validator that starts a fast sync as soon as enough peers are ahead. -/
def eagerValidator : Validator 4 := { exampleValidator with sync := { fastSyncThreshold := 1 } }

/-- A block that is not prepared is dropped, for too many peers have left its height. -/
def overtakenRun : List Happening :=
  let a := firstBlock 1000
  let b := secondBlock
  [.message .zero 2 (.status ⟨2, 1, 0, .haveBlock, some b.rid, false⟩), .pump .zero] ++
    [(3, 5), (1, 2)].map (fun (i, height) =>
      .message .zero i (.status ⟨height, 1, 0, .waitBlock, none, false⟩)) ++
    [.message .zero 2 (.completeBlock ⟨a, ⟨[1, 2, 3].map (signatureBy · a)⟩⟩ 1), .work .zero,
      .finish .zero 0, .message .zero 2 (.unfinishedBlock b), .work .zero, .finish .zero 0, waking 0,
      waking 0, .work .zero, waking 0, .mail 1 (.status ⟨3, 2, 0, .waitBlock, none, false⟩),
      waking 0] ++ timingOut

/-- A block is lost, though the own height stays, if its validator was not prepared on it and leaves
it to catch up, or if the pipeline is stopped, has committed it, fails to commit it, or is given a
fetched block that it turns down. Valid signatures over the prepared block are refused from then
on. -/
theorem syncs_lose_blocks :
    ¬SyncsKeepBlocks ((start eagerValidator .zero).trail overtakenRun) ∧
      ¬SyncsKeepBlocks ((start exampleValidator .zero).trail stoppedRun) ∧
      ¬SyncsKeepBlocks ((start exampleValidator .zero).trail committedRun) ∧
      ¬SyncsKeepBlocks ((start exampleValidator .zero).trail relayedRun) ∧
      ¬SyncsKeepBlocks ((start exampleValidator .zero).trail spoiledRun) ∧
      ∃ y ∈ ((start exampleValidator .zero).trail spoiledRun).getLast?,
        y.manager.own.phase = .prepared ∧ y.manager.own.rid = some (firstBlock 1000).rid ∧
          (y.pipeline.worker.verify (exampleSignature 1 (firstBlock 1000))).1 = false := by
  refine ⟨not_syncsKeepBlocks 10 22 secondBlock ?_, not_syncsKeepBlocks 8 20 (firstBlock 1000) ?_,
    not_syncsKeepBlocks 8 27 (firstBlock 1000) ?_, not_syncsKeepBlocks 8 27 (firstBlock 1000) ?_,
    not_syncsKeepBlocks 8 23 (firstBlock 1000) ?_, ?_⟩ <;> decide +kernel

end Runner

end Conclave

import Conclave.Proofs.ManagerCoherence
import Conclave.Proofs.PipelineWork

/-!
# Signatures that a pipeline collects

A builder files every signature under the validator that signed it, so what it has collected counts
distinct signers. A commit that is given verified signatures of a quorum never lacks signers.
-/

namespace Conclave

variable {n : ℕ} {keys : Keyring n} {me : Fin n}

/-! ### Verification -/

namespace Keyring

variable {s : Signature} {rid : Rid} {i j : Fin n}

lemma identity_of_verify (h : keys.verify s rid = .ok i) : (keys.get i).identity = s.signer := by
  unfold verify signer? at h
  split at h
  · cases h
  · rename_i j hj
    split at h
    · cases h
      simpa using List.find?_some hj
    · cases h

/-- Nobody but the validator with its identity can have given a signature. -/
lemma verify_of_signer (hkeys : Function.Injective fun i => (keys.get i).identity)
    (h : keys.verify s rid = .ok j) (hs : s.signer = (keys.get i).identity) :
    keys.verify s rid = .ok i := by
  have hij : j = i := hkeys ((identity_of_verify h).trans hs)
  rw [← hij]
  exact h

lemma verify_sign (hkeys : Function.Injective fun i => (keys.get i).identity) (i : Fin n)
    (rid : Rid) : keys.verify ((keys.get i).sign rid) rid = .ok i := by
  have hfound : keys.signer? ((keys.get i).sign rid) = some i := by
    unfold signer?
    cases hf : (List.finRange n).find? fun j =>
        (keys.get j).identity = ((keys.get i).sign rid).signer with
    | none => simpa [Key.sign] using List.find?_eq_none.mp hf i (List.mem_finRange i)
    | some j =>
      have hj : (keys.get j).identity = ((keys.get i).sign rid).signer := by
        simpa using List.find?_some hf
      rw [hkeys hj]
  simp [verify, hfound]

end Keyring

/-- Whether a block was refused for want of signers. -/
def EngineError.lacksSigners : EngineError → Bool
  | .badData (.fewSigners ..) => true
  | _ => false

def PipelineError.lacksSigners : PipelineError → Bool
  | .engine cause => cause.lacksSigners
  | _ => false

lemma Keyring.lacksSigners_of_verify {s : Signature} {rid : Rid} {cause : EngineError}
    (h : keys.verify s rid = .error cause) : cause.lacksSigners = false := by
  unfold verify at h
  split at h
  · cases h
    rfl
  · split at h
    · cases h
    · cases h
      rfl

lemma Table.mem_filterMap {t : Table n (Option Signature)} {i : Fin n} {s : Signature}
    (h : t.get i = some s) : s ∈ t.toList.filterMap id := by
  refine List.mem_filterMap.mpr ⟨some s, ?_, rfl⟩
  rw [Vector.mem_toList_iff, ← h, get_eq_getElem]
  exact Vector.getElem_mem _

lemma Table.exists_get_of_mem_filterMap {t : Table n (Option Signature)} {s : Signature}
    (h : s ∈ t.toList.filterMap id) : ∃ i, t.get i = some s := by
  obtain ⟨o, ho, rfl⟩ := List.mem_filterMap.mp h
  obtain ⟨i, hi, hget⟩ := Vector.getElem_of_mem (Vector.mem_toList_iff.mp ho)
  exact ⟨⟨i, hi⟩, hget⟩

/-! ### Builders -/

namespace Builder

/-- A builder of validator `me`: it has signed the block itself, and what it has collected is filed
under its signers. -/
structure Sound (keys : Keyring n) (me : Fin n) (b : Builder n) : Prop where
  keyring : b.keys = keys
  signature : b.signature = (keys.get me).sign b.block.rid
  own : (b.collected.get me).isSome = true
  verified : ∀ i s, b.collected.get i = some s → keys.verify s b.block.rid = .ok i

variable {b b' : Builder n}

lemma sound_builder (hkeys : Function.Injective fun i => (keys.get i).identity) {e : Engine n}
    (hk : e.keys = keys) (hme : e.me = me) (block : Block) : (e.builder block).Sound keys me := by
  subst hk hme
  refine ⟨rfl, rfl, by simp [Engine.builder], fun i s hs => ?_⟩
  simp only [Engine.builder, Table.get_put] at hs
  split at hs
  · rename_i hi
    cases hs
    rw [← hi]
    exact Keyring.verify_sign hkeys e.me block.rid
  · simp at hs

lemma Sound.applySignature (h : b.Sound keys me) {s : Signature}
    (hs : b.applySignature s = .ok b') :
    ∃ i, keys.verify s b.block.rid = .ok i ∧ b' = { b with collected := b.collected.put i (some s) } ∧
      b'.Sound keys me := by
  unfold Builder.applySignature at hs
  rw [h.keyring] at hs
  split at hs
  · cases hs
  · rename_i i hi
    cases hs
    refine ⟨i, hi, by rw [h.keyring], ⟨rfl, h.signature, ?_, fun j t ht => ?_⟩⟩
    · rw [Table.get_put]
      split
      · rfl
      · exact h.own
    · rw [Table.get_put] at ht
      split at ht
      · rename_i hij
        cases ht
        rw [← hij]
        exact hi
      · exact h.verified j t ht

lemma Sound.collect (h : b.Sound keys me) (l : List Signature) :
    (BlockBuilder.collect b l).1.Sound keys me := by
  induction l generalizing b with
  | nil => exact h
  | cons s l ih =>
    unfold BlockBuilder.collect
    split
    · exact ih h
    · split
      · exact h
      · rename_i b₁ happly
        obtain ⟨-, -, -, hsound⟩ := h.applySignature happly
        exact ih hsound

/-- Whoever has signed one of the signatures is among the signers afterwards. -/
lemma Sound.isSome_collect (hkeys : Function.Injective fun i => (keys.get i).identity)
    (h : b.Sound keys me) {l : List Signature} (hl : BlockBuilder.collect b l = (b', .ok ())) :
    (∀ i, (b.collected.get i).isSome = true → (b'.collected.get i).isSome = true) ∧
      ∀ s ∈ l, ∀ i, keys.verify s b.block.rid = .ok i → (b'.collected.get i).isSome = true := by
  induction l generalizing b with
  | nil =>
    cases hl
    exact ⟨fun _ hi => hi, by simp⟩
  | cons s l ih =>
    unfold BlockBuilder.collect at hl
    split at hl
    · rename_i hown
      obtain ⟨hkept, hnew⟩ := ih h hl
      refine ⟨hkept, fun t ht i hi => ?_⟩
      rcases List.mem_cons.mp ht with rfl | ht
      · -- The own signature is passed over, for it is there from the start.
        have hsigner : t.signer = (keys.get me).identity := by
          rw [hown]
          exact congrArg Signature.signer h.signature
        have hme : i = me := hkeys ((Keyring.identity_of_verify hi).trans hsigner)
        rw [hme]
        exact hkept me h.own
      · exact hnew t ht i hi
    · split at hl
      · cases hl
      · rename_i b₁ happly
        obtain ⟨j, hj, rfl, hsound⟩ := h.applySignature happly
        obtain ⟨hkept, hnew⟩ := ih hsound hl
        have hthere : ∀ i, (b.collected.get i).isSome = true ∨ j = i →
            (b'.collected.get i).isSome = true := fun i hi => by
          apply hkept
          rw [Table.get_put]
          split
          · rfl
          · exact hi.resolve_right ‹_›
        refine ⟨fun i hi => hthere i (.inl hi), fun t ht i hi => ?_⟩
        rcases List.mem_cons.mp ht with rfl | ht
        · rw [hj] at hi
          exact hthere i (.inr (Except.ok.inj hi))
        · exact hnew t ht i hi

/-- With signatures of a quorum over its block, a builder has collected a quorum. -/
lemma Sound.filled_collect (hkeys : Function.Injective fun i => (keys.get i).identity)
    (h : b.Sound keys me) {signatures : Table n (Option Signature)}
    (hq : quorum n ≤ Manager.filled signatures)
    (hs : ∀ i s, signatures.get i = some s → keys.verify s b.block.rid = .ok i)
    (hl : BlockBuilder.collect b (signatures.toList.filterMap id) = (b', .ok ())) :
    quorum n ≤ Manager.filled b'.collected := by
  refine hq.trans (List.countP_mono_left fun i _ hi => ?_)
  obtain ⟨s, hi⟩ := Option.isSome_iff_exists.mp hi
  exact (h.isSome_collect hkeys hl).2 s (Table.mem_filterMap hi) i (hs i s hi)

lemma lacksSigners_of_collect {l : List Signature} {cause : EngineError}
    (hl : BlockBuilder.collect b l = (b', .error cause)) : cause.lacksSigners = false := by
  induction l generalizing b with
  | nil => cases hl
  | cons s l ih =>
    unfold BlockBuilder.collect at hl
    split at hl
    · exact ih hl
    · split at hl
      · rename_i happly
        cases hl
        change Builder.applySignature _ s = _ at happly
        unfold Builder.applySignature at happly
        split at happly
        · rename_i hverify
          cases happly
          exact Keyring.lacksSigners_of_verify hverify
        · cases happly
      · exact ih hl

/-- The signers of verified signatures are all found. -/
lemma mem_signers {l : List Signature} {seen signers : List (Fin n)}
    (h : b.signers seen l = .ok signers) :
    (∀ i ∈ seen, i ∈ signers) ∧
      ∀ s ∈ l, ∀ i, b.keys.verify s b.block.rid = .ok i → i ∈ signers := by
  induction l generalizing seen with
  | nil =>
    cases h
    simp
  | cons s l ih =>
    unfold Builder.signers at h
    split at h
    · cases h
    · rename_i j hj
      obtain ⟨hseen, hnew⟩ := ih h
      have hkept : ∀ i, i ∈ seen ∨ i = j → i ∈ signers := fun i hi => by
        apply hseen
        split
        · rename_i hin
          rcases hi with hi | rfl
          · exact hi
          · exact hin
        · simpa using hi
      refine ⟨fun i hi => hkept i (.inl hi), fun t ht i hi => ?_⟩
      rcases List.mem_cons.mp ht with rfl | ht
      · rw [hj] at hi
        exact hkept i (.inr (Except.ok.inj hi).symm)
      · exact hnew t ht i hi

/-- Verified signatures are all counted. -/
lemma exists_signers {l : List Signature}
    (hl : ∀ s ∈ l, ∃ i, b.keys.verify s b.block.rid = .ok i) (seen : List (Fin n)) :
    ∃ signers, b.signers seen l = .ok signers := by
  induction l generalizing seen with
  | nil => exact ⟨seen, rfl⟩
  | cons s l ih =>
    obtain ⟨i, hi⟩ := hl s List.mem_cons_self
    simp only [Builder.signers, hi]
    exact ih (fun t ht => hl t (List.mem_cons_of_mem _ ht)) _

/-- A builder lets a witness pass that has valid signatures only, from a quorum of validators. -/
lemma checkWitness_of_signers {w : Witness} {signers : Finset (Fin n)}
    (hsigned : ∀ s ∈ w.signatures, ∃ i, b.keys.verify s b.block.rid = .ok i)
    (hq : quorum n ≤ signers.card)
    (hsigners : ∀ i ∈ signers, ∃ s ∈ w.signatures, b.keys.verify s b.block.rid = .ok i) :
    b.checkWitness w = .ok () := by
  obtain ⟨found, hfound⟩ := exists_signers hsigned []
  have hall : signers ⊆ found.toFinset := fun i hi => by
    obtain ⟨s, hs, hverify⟩ := hsigners i hi
    rw [List.mem_toFinset]
    exact (mem_signers hfound).2 s hs i hverify
  have hcard := (Finset.card_le_card hall).trans found.toFinset_card_le
  simp only [Builder.checkWitness, hfound]
  exact if_neg (by omega)

/-- A quorum of collected signatures is a quorum of signers. -/
lemma Sound.checkWitness (h : b.Sound keys me) (hq : quorum n ≤ Manager.filled b.collected) :
    b.checkWitness b.witness = .ok () := by
  unfold Manager.filled at hq
  rw [countP_finRange] at hq
  refine checkWitness_of_signers (fun s hs => ?_) hq fun i hi => ?_
  · obtain ⟨i, hi⟩ := Table.exists_get_of_mem_filterMap hs
    rw [h.keyring]
    exact ⟨i, h.verified i s hi⟩
  · obtain ⟨s, hs⟩ := Option.isSome_iff_exists.mp (Finset.mem_filter.mp hi).2
    rw [h.keyring]
    exact ⟨s, Table.mem_filterMap hs, h.verified i s hs⟩

end Builder

/-! ### Engines -/

namespace Engine

variable {e : Engine n} {builder : Builder n}

/-- The engine of validator `me`, with everyone's keys. -/
def IsOf (keys : Keyring n) (me : Fin n) (e : Engine n) : Prop := e.keys = keys ∧ e.me = me

lemma IsOf.load (h : e.IsOf keys me) (b : Block) : (e.load b).2.IsOf keys me := by
  unfold Engine.load
  split
  · exact h
  · split <;> exact h

lemma IsOf.build (h : e.IsOf keys me) (order : BuildOrder) : (e.build order).2.IsOf keys me := by
  unfold Engine.build
  split
  · exact h
  split
  · exact h
  split <;> exact h

lemma exists_builder_of_build {order : BuildOrder} (h : (e.build order).1 = .ok builder) :
    ∃ b, builder = e.builder b := by
  unfold Engine.build at h
  split at h
  · cases h
  split at h
  · cases h
  split at h
  · cases h
  · cases h
    exact ⟨_, rfl⟩

lemma IsOf.commit (h : e.IsOf keys me) (b : Builder n) (w : Witness) :
    (e.commit b w).2.IsOf keys me := by
  unfold Engine.commit
  split <;> exact h

lemma lacksSigners_of_checkExtends {c : Chain} {header : Header} {cause : EngineError}
    (h : c.checkExtends header = .error cause) : cause.lacksSigners = false := by
  unfold Chain.checkExtends at h
  split at h
  · cases h
    rfl
  split at h
  · cases h
    rfl
  · cases h

lemma lacksSigners_of_commit (h : builder.Sound keys me)
    (hq : quorum n ≤ Manager.filled builder.collected) {cause : EngineError}
    (hc : (e.commit builder builder.witness).1 = .error cause) : cause.lacksSigners = false := by
  unfold Engine.commit at hc
  rw [h.checkWitness hq] at hc
  split at hc
  · rename_i hwitness
    cases hwitness
  · rename_i hextends
    cases hc
    exact lacksSigners_of_checkExtends hextends
  · cases hc

end Engine

/-! ### Workers -/

namespace Worker

variable {w : Worker (Engine n) (Builder n)}

/-- The worker of validator `me`, with everyone's keys. -/
structure Keyed (keys : Keyring n) (me : Fin n) (w : Worker (Engine n) (Builder n)) : Prop where
  engine : w.engine.IsOf keys me
  builder : ∀ b, w.builder = some b → b.Sound keys me

lemma Keyed.abandon (h : w.Keyed keys me) : w.abandon.Keyed keys me := by
  unfold Worker.abandon
  split
  · exact h
  · exact ⟨h.engine, by simp⟩

lemma Keyed.load (hkeys : Function.Injective fun i => (keys.get i).identity)
    (h : w.Keyed keys me) (b : Block) :
    (w.load b).2.Keyed keys me ∧ ∀ s, (w.load b).1 = .ok s → s = (keys.get me).sign b.rid := by
  have hengine := h.abandon.engine.load b
  have hbuilder : ∀ builder, (w.abandon.engine.load b).1 = .ok builder → _ :=
    fun _ h => (checkBlock_of_load h).1
  simp only [Worker.load, Engine.load_def]
  generalize w.abandon.engine.load b = r at hengine hbuilder ⊢
  obtain ⟨result, engine⟩ := r
  cases result with
  | error cause => exact ⟨⟨hengine, h.abandon.builder⟩, by simp⟩
  | ok builder =>
    have hsound : builder.Sound keys me := by
      rw [hbuilder builder rfl]
      exact Builder.sound_builder hkeys h.abandon.engine.1 h.abandon.engine.2 b
    refine ⟨⟨hengine, fun b' hb' => ?_⟩, fun s hs => ?_⟩
    · cases hb'
      exact hsound
    · cases hs
      have hblock : builder.block = b := by rw [hbuilder builder rfl]; rfl
      rw [← hblock]
      exact hsound.signature

lemma Keyed.build (hkeys : Function.Injective fun i => (keys.get i).identity)
    (h : w.Keyed keys me) (order : BuildOrder) :
    (w.build order).2.Keyed keys me ∧
      ∀ b s, (w.build order).1 = .ok (b, s) → s = (keys.get me).sign b.rid := by
  have hengine := h.abandon.engine.build order
  have hbuilder : ∀ builder, (w.abandon.engine.build order).1 = .ok builder → _ :=
    fun _ => Engine.exists_builder_of_build
  simp only [Worker.build, Engine.build_def]
  generalize w.abandon.engine.build order = r at hengine hbuilder ⊢
  obtain ⟨result, engine⟩ := r
  cases result with
  | error cause => exact ⟨⟨hengine, h.abandon.builder⟩, by simp⟩
  | ok builder =>
    have hsound : builder.Sound keys me := by
      obtain ⟨b, rfl⟩ := hbuilder builder rfl
      exact Builder.sound_builder hkeys h.abandon.engine.1 h.abandon.engine.2 b
    refine ⟨⟨hengine, fun b' hb' => ?_⟩, fun b s hs => ?_⟩
    · cases hb'
      exact hsound
    · cases hs
      exact hsound.signature

lemma Keyed.add (h : w.Keyed keys me) (b : SealedBlock) : (w.add b).2.Keyed keys me := by
  have hengine := h.abandon.engine.load b.block
  simp only [Worker.add, Engine.load_def]
  generalize w.abandon.engine.load b.block = r at hengine ⊢
  obtain ⟨result, engine⟩ := r
  cases result with
  | error cause => exact ⟨hengine, h.abandon.builder⟩
  | ok builder => exact ⟨hengine.commit builder b.witness, h.abandon.builder⟩

lemma Keyed.verify (h : w.Keyed keys me) (s : Signature) :
    (w.verify s).2.Keyed keys me ∧ ((w.verify s).1 = true →
      ∃ p i, w.builder.map Builder.block = some p ∧ keys.verify s p.rid = .ok i) := by
  unfold Worker.verify
  cases hw : w.builder with
  | none => exact ⟨h, by simp⟩
  | some b =>
    cases happly : b.applySignature s with
    | error cause =>
      simp only [Builder.applySignature_def, happly]
      exact ⟨h, by simp⟩
    | ok b' =>
      obtain ⟨i, hi, -, hsound⟩ := (h.builder b hw).applySignature happly
      simp only [Builder.applySignature_def, happly]
      refine ⟨⟨h.engine, fun b₁ hb₁ => ?_⟩, fun _ => ⟨b.block, i, rfl, hi⟩⟩
      cases hb₁
      exact hsound

lemma Keyed.commit (h : w.Keyed keys me) (signatures : List (Option Signature)) :
    (w.commit signatures).2.Keyed keys me := by
  unfold Worker.commit
  cases hw : w.builder with
  | none => exact h
  | some b =>
    have hsound := (h.builder b hw).collect (signatures.filterMap id)
    simp only
    generalize BlockBuilder.collect b (signatures.filterMap id) = r at hsound ⊢
    obtain ⟨b', collected⟩ := r
    cases collected with
    | error cause =>
      refine ⟨h.engine, fun b₁ hb₁ => ?_⟩
      cases hb₁
      exact hsound
    | ok u => exact ⟨h.engine.commit b' b'.witness, by simp⟩

/-- A commit that is given a signature of each of a quorum has signers enough. -/
theorem Keyed.lacksSigners_of_commit (hkeys : Function.Injective fun i => (keys.get i).identity)
    (h : w.Keyed keys me) {signatures : Table n (Option Signature)}
    (hq : quorum n ≤ Manager.filled signatures)
    (hs : ∀ b, w.builder = some b → ∀ i s, signatures.get i = some s →
      keys.verify s b.block.rid = .ok i)
    {cause : PipelineError} (hc : (w.commit signatures.toList).1 = .error cause) :
    cause.lacksSigners = false := by
  unfold Worker.commit at hc
  cases hw : w.builder with
  | none =>
    rw [hw] at hc
    cases hc
    rfl
  | some b =>
    have hsound := (h.builder b hw).collect (signatures.toList.filterMap id)
    simp only [hw] at hc
    cases hl : BlockBuilder.collect b (signatures.toList.filterMap id) with
    | mk b' collected =>
      rw [hl] at hc hsound
      cases collected with
      | error cause =>
        cases hc
        exact Builder.lacksSigners_of_collect hl
      | ok u =>
        have hfilled := (h.builder b hw).filled_collect hkeys hq (hs b hw) hl
        simp only at hc
        rw [Engine.commit_def, Builder.witness_def] at hc
        cases hcommit : (w.engine.commit b' b'.witness).1 with
        | error cause' =>
          rw [hcommit] at hc
          cases hc
          exact Engine.lacksSigners_of_commit hsound hfilled hcommit
        | ok u =>
          rw [hcommit] at hc
          cases hc

/-! ### Replies -/

/-- What the reply to a job says about signatures: the own ones are over the block that was asked
for, and valid ones over the pending block. -/
def Attests (keys : Keyring n) (me : Fin n) (w : Worker (Engine n) (Builder n)) :
    (job : Job) → job.Reply → Prop
  | .load b, s => s = (keys.get me).sign b.rid
  | .build, (b, s) => s = (keys.get me).sign b.rid
  | .verify s, (valid : Bool) => valid = true →
      ∃ p i, w.builder.map Builder.block = some p ∧ keys.verify s p.rid = .ok i
  | _, _ => True

/-- Every job leaves the worker with the same keys and answers truthfully about signatures. -/
theorem Keyed.run (hkeys : Function.Injective fun i => (keys.get i).identity)
    (h : w.Keyed keys me) (order : BuildOrder) (job : Job) :
    (w.run order job).2.Keyed keys me ∧
      ∀ reply, (w.run order job).1 = .ok reply → w.Attests keys me job reply := by
  cases job with
  | load b => exact h.load hkeys b
  | build =>
    obtain ⟨hkeyed, hsigned⟩ := h.build hkeys order
    exact ⟨hkeyed, fun ⟨b, s⟩ hr => hsigned b s hr⟩
  | add b => exact ⟨h.add b, fun _ _ => trivial⟩
  | commit signatures => exact ⟨h.commit signatures, fun _ _ => trivial⟩
  | verify s =>
    obtain ⟨hkeyed, hvalid⟩ := h.verify s
    refine ⟨hkeyed, fun valid hr => ?_⟩
    cases hr
    exact hvalid
  | blockAt | signatureOf | lastHeight => exact ⟨h, fun _ _ => trivial⟩

end Worker

end Conclave

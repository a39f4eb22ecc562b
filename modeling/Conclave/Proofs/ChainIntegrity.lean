import Conclave.Proofs.CollectedSignatures

/-!
# The integrity of a chain

An engine may have handed out several builders at once, some of them stale by now. Whatever is done
with it and with them, its chain only ever grows, by the block of a commit that succeeds. Every
block extends the one before it, refers to its own contents and is signed by a quorum.
-/

namespace Conclave

variable {n : ℕ} {keys : Keyring n} {me : Fin n}

/-! ### Intact chains -/

/-- The reference of a block is the one of its contents. Its witness has valid signatures only, from
a quorum of validators. -/
structure SealedBlock.Genuine (keys : Keyring n) (b : SealedBlock) : Prop where
  contents : b.block.contentRid = b.rid
  signed : ∀ s ∈ b.witness.signatures, ∃ i, keys.verify s b.rid = .ok i
  witnessed : ∃ signers : Finset (Fin n), quorum n ≤ signers.card ∧
    ∀ i ∈ signers, ∃ s ∈ b.witness.signatures, keys.verify s b.rid = .ok i

namespace Chain

/-- Heights count up from one, every block extends the one before it, and of validator `me` there
are the own signatures over all blocks, and no others. -/
structure Intact (keys : Keyring n) (me : Fin n) (c : Chain) : Prop where
  height : ∀ (i : ℕ) b, c.blocks[i]? = some b → b.block.height = i + 1
  first : ∀ b, c.blocks[0]? = some b → b.block.header.parent = .zero
  parent : ∀ (i : ℕ) a b, c.blocks[i]? = some a → c.blocks[i + 1]? = some b →
    b.block.header.parent = a.rid
  genuine : ∀ b ∈ c.blocks, b.Genuine keys
  own : ∀ rid s, c.signatureOf rid = some s ↔ rid ∈ c.rids ∧ s = (keys.get me).sign rid

variable {c : Chain} {b : SealedBlock}

lemma intact_empty (keys : Keyring n) (me : Fin n) : empty.Intact keys me := by
  refine ⟨?_, ?_, ?_, ?_, ?_⟩ <;> simp [empty, signatureOf, rids]

lemma parent_of_checkExtends {h : Header} (hok : c.checkExtends h = .ok ()) :
    h.parent = c.lastRid := by
  unfold checkExtends at hok
  split at hok
  · cases hok
  split at hok
  · cases hok
  · rename_i hparent
    exact of_not_not hparent

lemma lastRid_eq_of_getElem? {i : ℕ} (h : c.blocks[i]? = some b) (hi : i + 1 = c.height) :
    c.lastRid = b.rid := by
  have hlast : c.blocks.getLast? = some b := by
    rw [List.getLast?_eq_getElem?, ← h]
    congr 1
    unfold Chain.height at hi
    omega
  unfold lastRid
  rw [hlast]

lemma lastRid_eq_zero (h : c.height = 0) : c.lastRid = .zero := by
  unfold lastRid
  rw [List.getLast?_eq_none_iff.mpr (List.length_eq_zero_iff.mp h)]

/-- A block of a chain that has grown is the new one, or stood in its place before. -/
lemma getElem?_append_cases {own : Signature} {i : ℕ} {x : SealedBlock}
    (h : (c.append b own).blocks[i]? = some x) :
    c.blocks[i]? = some x ∨ (i = c.height ∧ x = b) := by
  have hlt : i < c.height + 1 := by
    obtain ⟨hi, -⟩ := List.getElem?_eq_some_iff.mp h
    rwa [← height_append c b own]
  by_cases hi : i < c.height
  · left
    rwa [append, List.getElem?_append_left hi] at h
  · right
    obtain rfl : i = c.height := by omega
    simp only [append, Chain.height, List.getElem?_concat_length, Option.some.injEq] at h
    exact ⟨rfl, h.symm⟩

lemma mem_rids_append {own : Signature} {rid : Rid} :
    rid ∈ (c.append b own).rids ↔ rid ∈ c.rids ∨ rid = b.rid := by
  simp [rids, append]

lemma signatureOf_append {own : Signature} {rid : Rid} :
    (c.append b own).signatureOf rid = if rid = b.rid then some own else c.signatureOf rid := by
  unfold signatureOf append
  rw [List.lookup_cons]
  by_cases h : rid = b.rid
  · simp [h]
  · have hne : (rid == b.rid) = false := by simpa using h
    simp [h, hne]

/-- A genuine block that extends an intact chain can be appended, with the own signature over it. -/
theorem Intact.append (h : c.Intact keys me) (hextends : c.checkExtends b.block.header = .ok ())
    (hb : b.Genuine keys) : (c.append b ((keys.get me).sign b.rid)).Intact keys me where
  height i x hx := by
    rcases getElem?_append_cases hx with hold | ⟨rfl, rfl⟩
    · exact h.height i x hold
    · exact height_of_checkExtends hextends
  first x hx := by
    rcases getElem?_append_cases hx with hold | ⟨hzero, rfl⟩
    · exact h.first x hold
    · rw [parent_of_checkExtends hextends, lastRid_eq_zero hzero.symm]
  parent i a x ha hx := by
    have hlt : i + 1 < c.height + 1 := by
      obtain ⟨hi, -⟩ := List.getElem?_eq_some_iff.mp hx
      rwa [← height_append c b ((keys.get me).sign b.rid)]
    have hold : c.blocks[i]? = some a := by
      rcases getElem?_append_cases ha with hold | ⟨rfl, -⟩
      · exact hold
      · omega
    rcases getElem?_append_cases hx with hnext | ⟨hi, rfl⟩
    · exact h.parent i a x hold hnext
    · rw [parent_of_checkExtends hextends, lastRid_eq_of_getElem? hold hi]
  genuine x hx := by
    rcases List.mem_append.mp hx with hold | hnew
    · exact h.genuine x hold
    · rw [List.mem_singleton.mp hnew]
      exact hb
  own rid s := by
    rw [signatureOf_append, mem_rids_append]
    split
    · rename_i heq
      rw [heq, Option.some.injEq]
      exact ⟨fun hs => ⟨.inr rfl, hs.symm⟩, fun hs => hs.2.symm⟩
    · rename_i hne
      rw [h.own]
      exact ⟨fun hs => ⟨.inl hs.1, hs.2⟩, fun hs => ⟨hs.1.resolve_right hne, hs.2⟩⟩

/-- What validators rely on of a chain holds of every intact one. -/
theorem Intact.sound (h : c.Intact keys me) : c.Sound where
  height k b hk := by
    obtain ⟨hpos, -⟩ := le_height_of_blockAt hk
    unfold blockAt at hk
    rw [if_neg (by omega)] at hk
    rw [h.height (k - 1) b hk]
    omega
  own rid s hs := by
    obtain ⟨b, hb, hrid⟩ := List.mem_map.mp ((h.own rid s).mp hs).1
    obtain ⟨i, hi⟩ := List.getElem?_of_mem hb
    exact ⟨i + 1, b, by simpa [blockAt] using hi, hrid⟩

end Chain

/-! ### Builders and witnesses -/

/-- A builder from the engine of validator `me`, for a block that refers to its own contents. -/
structure Builder.Made (keys : Keyring n) (me : Fin n) (b : Builder n) : Prop where
  keyring : b.keys = keys
  signature : b.signature = (keys.get me).sign b.block.rid
  contents : b.block.contentRid = b.block.rid

namespace Builder

variable {b b' : Builder n}

lemma Made.applySignature (h : b.Made keys me) {s : Signature} (hs : b.applySignature s = .ok b') :
    b'.Made keys me := by
  unfold Builder.applySignature at hs
  split at hs
  · cases hs
  · cases hs
    exact ⟨h.keyring, h.signature, h.contents⟩

/-- The signers that are found are distinct, and each of them has signed. -/
lemma signed_of_signers {l : List Signature} {seen signers : List (Fin n)}
    (h : b.signers seen l = .ok signers) (hseen : seen.Nodup) :
    signers.Nodup ∧ (∀ s ∈ l, ∃ i, b.keys.verify s b.block.rid = .ok i) ∧
      ∀ i ∈ signers, i ∈ seen ∨ ∃ s ∈ l, b.keys.verify s b.block.rid = .ok i := by
  induction l generalizing seen with
  | nil =>
    cases h
    exact ⟨hseen, by simp, fun i hi => .inl hi⟩
  | cons s l ih =>
    unfold Builder.signers at h
    split at h
    · cases h
    rename_i j hj
    have hnext : (if j ∈ seen then seen else seen ++ [j]).Nodup := by
      split
      · exact hseen
      · rename_i hnew
        exact List.nodup_append.mpr ⟨hseen, List.nodup_singleton j, by
          intro i hi k hk
          rw [List.mem_singleton.mp hk]
          rintro rfl
          exact hnew hi⟩
    obtain ⟨hnodup, hall, hfrom⟩ := ih h hnext
    refine ⟨hnodup, fun t ht => ?_, fun i hi => ?_⟩
    · rcases List.mem_cons.mp ht with rfl | ht
      · exact ⟨j, hj⟩
      · exact hall t ht
    · rcases hfrom i hi with hmem | ⟨t, ht, hverify⟩
      · have hcases : i ∈ seen ∨ i = j := by
          split at hmem
          · exact .inl hmem
          · simpa using hmem
        rcases hcases with hold | rfl
        · exact .inl hold
        · exact .inr ⟨s, List.mem_cons_self, hj⟩
      · exact .inr ⟨t, List.mem_cons_of_mem _ ht, hverify⟩

/-- A block is genuine with every witness that its builder lets pass, wherever that comes from. -/
lemma Made.genuine (h : b.Made keys me) {w : Witness} (hw : b.checkWitness w = .ok ()) :
    SealedBlock.Genuine keys ⟨b.block, w⟩ := by
  unfold Builder.checkWitness at hw
  split at hw
  · cases hw
  rename_i signers hsigners
  obtain ⟨hnodup, hall, hfrom⟩ := signed_of_signers hsigners List.nodup_nil
  rw [h.keyring] at hall hfrom
  refine ⟨h.contents, hall, signers.toFinset, ?_, fun i hi => ?_⟩
  · rw [List.toFinset_card_of_nodup hnodup]
    split at hw
    · cases hw
    · omega
  · rcases hfrom i (List.mem_toFinset.mp hi) with hnone | hsome
    · cases hnone
    · exact hsome

end Builder

namespace Engine

variable {e : Engine n} {builder : Builder n}

lemma made_builder (h : e.IsOf keys me) {b : Block} (hb : b.contentRid = b.rid) :
    (e.builder b).Made keys me := by
  obtain ⟨rfl, rfl⟩ := h
  exact ⟨rfl, rfl, hb⟩

lemma contents_of_checkBlock {b : Block} (h : e.checkBlock b = .ok ()) :
    b.contentRid = b.rid := by
  by_contra hne
  unfold checkBlock at h
  cases hextends : e.chain.checkExtends b.header with
  | error cause => simp [hextends, bind, Except.bind] at h
  | ok u => simp [hextends, bind, Except.bind, hne, throw, throwThe, MonadExceptOf.throw] at h

lemma made_of_load (h : e.IsOf keys me) {b : Block} (hb : (e.load b).1 = .ok builder) :
    builder.Made keys me := by
  obtain ⟨rfl, hcheck⟩ := checkBlock_of_load hb
  exact made_builder h (contents_of_checkBlock hcheck)

lemma made_of_build (h : e.IsOf keys me) {order : BuildOrder}
    (hb : (e.build order).1 = .ok builder) : builder.Made keys me := by
  unfold Engine.build at hb
  split at hb
  · cases hb
  split at hb
  · cases hb
  split at hb
  · cases hb
  · cases hb
    exact made_builder h rfl

/-- A commit that succeeds appends a genuine block, though the chain may have moved since the block
was built or loaded. -/
lemma commit_of_made (h : builder.Made keys me) (w : Witness) :
    ((∃ cause, (e.commit builder w).1 = .error cause) ∧ (e.commit builder w).2.chain = e.chain) ∨
      ((e.commit builder w).1 = .ok () ∧
        (e.commit builder w).2.chain = e.chain.append ⟨builder.block, w⟩ builder.signature ∧
        e.chain.checkExtends builder.block.header = .ok () ∧
        SealedBlock.Genuine keys ⟨builder.block, w⟩) := by
  unfold Engine.commit
  split
  · exact .inl ⟨⟨_, rfl⟩, rfl⟩
  · exact .inl ⟨⟨_, rfl⟩, rfl⟩
  · rename_i hwitness hextends
    exact .inr ⟨rfl, rfl, hextends, h.genuine hwitness⟩

end Engine

/-! ### An engine at work -/

/-- An engine together with the builders that it has handed out and that are still around. -/
structure Workshop (n : ℕ) where
  engine : Engine n
  builders : List (Builder n) := []

namespace Workshop

/-- What can be done with an engine and, by position, with its builders. -/
inductive Act where
  | load (block : Block)
  | build (order : BuildOrder)
  | sign (index : ℕ) (signature : Signature)
  | commit (index : ℕ) (witness : Witness)
  | rollback (index : ℕ)
  /-- A builder is dropped without a word to the engine. -/
  | discard (index : ℕ)
  | retryTaken
  | close
  | push (tx : Bytes)
  /-- So many of the next builds and loads are going to fail. -/
  | spoil (builds loads : ℕ)
  | blockAt (height : ℕ) (transactions : Bool)
  | signatureOf (rid : Rid)
  | lastHeight

/-- The result of an act, and what is there after it. There is none without the builder in
question. -/
def step (x : Workshop n) : Act → Option (Except EngineError Unit × Workshop n)
  | .load b =>
    let (result, engine) := x.engine.load b
    some (result.map fun _ => (), ⟨engine, x.builders ++ result.toOption.toList⟩)
  | .build order =>
    let (result, engine) := x.engine.build order
    some (result.map fun _ => (), ⟨engine, x.builders ++ result.toOption.toList⟩)
  | .sign i s => do
    let b ← x.builders[i]?
    match b.applySignature s with
    | .error cause => return (.error cause, x)
    | .ok b => return (.ok (), { x with builders := x.builders.set i b })
  | .commit i w => do
    let b ← x.builders[i]?
    let (result, engine) := x.engine.commit b w
    return (result, ⟨engine, x.builders.eraseIdx i⟩)
  | .rollback i => do
    let _ ← x.builders[i]?
    return (.ok (), ⟨x.engine.restore, x.builders.eraseIdx i⟩)
  | .discard i => do
    let _ ← x.builders[i]?
    return (.ok (), { x with builders := x.builders.eraseIdx i })
  | .retryTaken => some (.ok (), { x with engine := x.engine.restore })
  | .close => some (.ok (), { x with engine := { x.engine with closed := true } })
  | .push tx => some (.ok (), { x with engine := { x.engine with queue := x.engine.queue.push tx } })
  | .spoil builds loads =>
    some (.ok (), { x with engine := { x.engine with failBuilds := builds, failLoads := loads } })
  | .blockAt height transactions =>
    some ((x.engine.blockAt height transactions).map fun _ => (), x)
  | .signatureOf rid => some ((x.engine.signatureOf rid).map fun _ => (), x)
  | .lastHeight => some (x.engine.lastHeight.map fun _ => (), x)

/-- The workshop after the acts; those without their builder are passed over. -/
def run (x : Workshop n) : List Act → Workshop n
  | [] => x
  | a :: acts => ((x.step a).elim x Prod.snd).run acts

/-- The chain is intact, and all builders were made over the same keys. -/
structure Sound (keys : Keyring n) (me : Fin n) (x : Workshop n) : Prop where
  engine : x.engine.IsOf keys me
  chain : x.engine.chain.Intact keys me
  builders : ∀ b ∈ x.builders, b.Made keys me

variable {x y : Workshop n} {a : Act} {result : Except EngineError Unit}

/-- A commit that succeeds puts the block of its builder at the end of the chain, sealed with the
witness that it was given, and stores the own signature over it; nothing else touches the chain. -/
def Extends (x : Workshop n) (a : Act) (result : Except EngineError Unit) (y : Workshop n) : Prop :=
  (∃ i w b, a = .commit i w ∧ x.builders[i]? = some b ∧ result = .ok () ∧
      y.engine.chain.blocks = x.engine.chain.blocks ++ [⟨b.block, w⟩] ∧
      y.engine.chain.signatures =
        (b.block.rid, (x.engine.keys.get x.engine.me).sign b.block.rid) ::
          x.engine.chain.signatures) ∨
    (y.engine.chain.blocks = x.engine.chain.blocks ∧
      y.engine.chain.signatures = x.engine.chain.signatures ∧
      (result = .ok () → ∀ i w, a ≠ .commit i w))

lemma Extends.of_chain_eq (hchain : y.engine.chain = x.engine.chain)
    (hcommit : result = .ok () → ∀ i w, a ≠ .commit i w) : x.Extends a result y :=
  .inr ⟨congrArg _ hchain, congrArg _ hchain, hcommit⟩

/-- Another engine with the same chain. -/
lemma Sound.rework (h : x.Sound keys me) {e : Engine n} (hof : e.IsOf keys me)
    (hchain : e.chain = x.engine.chain) {builders : List (Builder n)}
    (hb : ∀ b ∈ builders, b.Made keys me) : Sound keys me ⟨e, builders⟩ where
  engine := hof
  chain := by
    rw [hchain]
    exact h.chain
  builders := hb

lemma Sound.made_of_erase (h : x.Sound keys me) (i : ℕ) :
    ∀ b ∈ x.builders.eraseIdx i, b.Made keys me :=
  fun b hb => h.builders b (List.mem_of_mem_eraseIdx hb)

/-- A new builder joins the others. -/
lemma Sound.made_of_join (h : x.Sound keys me) {made : Except EngineError (Builder n)}
    (hmade : ∀ b, made = .ok b → b.Made keys me) :
    ∀ b ∈ x.builders ++ made.toOption.toList, b.Made keys me := by
  intro b hb
  rcases List.mem_append.mp hb with hold | hnew
  · exact h.builders b hold
  · cases made with
    | error cause => cases hnew
    | ok b' =>
      rw [List.mem_singleton.mp hnew]
      exact hmade b' rfl

lemma Sound.commit (h : x.Sound keys me) {i : ℕ} {w : Witness} {b : Builder n}
    (hb : x.builders[i]? = some b) :
    Sound keys me ⟨(x.engine.commit b w).2, x.builders.eraseIdx i⟩ ∧
      x.Extends (.commit i w) (x.engine.commit b w).1
        ⟨(x.engine.commit b w).2, x.builders.eraseIdx i⟩ := by
  have hmade := h.builders b (List.mem_of_getElem? hb)
  have hof := h.engine.commit b w
  rcases x.engine.commit_of_made hmade w with ⟨⟨cause, hr⟩, hchain⟩ | ⟨hr, hchain, hextends, hgenuine⟩
  · refine ⟨h.rework hof hchain (h.made_of_erase i), .of_chain_eq hchain fun hok => ?_⟩
    rw [hr] at hok
    cases hok
  · rw [hmade.signature] at hchain
    obtain ⟨hkeys, hme⟩ := h.engine
    refine ⟨⟨hof, ?_, h.made_of_erase i⟩, .inl ⟨i, w, b, rfl, hb, hr, ?_, ?_⟩⟩
    · change (x.engine.commit b w).2.chain.Intact keys me
      rw [hchain]
      exact h.chain.append hextends hgenuine
    · exact congrArg Chain.blocks hchain
    · rw [hkeys, hme]
      exact congrArg Chain.signatures hchain

/-- Whatever is done, the chain stays intact and grows by committed blocks only. -/
theorem Sound.step (h : x.Sound keys me) (hs : x.step a = some (result, y)) :
    y.Sound keys me ∧ x.Extends a result y := by
  cases a with
  | load b =>
    cases hs
    have hchain := chain_load x.engine b
    exact ⟨h.rework (h.engine.load b) hchain (h.made_of_join fun _ => Engine.made_of_load h.engine),
      .of_chain_eq hchain (by simp)⟩
  | build order =>
    cases hs
    have hchain := chain_build x.engine order
    exact ⟨h.rework (h.engine.build order) hchain
      (h.made_of_join fun _ => Engine.made_of_build h.engine), .of_chain_eq hchain (by simp)⟩
  | sign i s =>
    obtain ⟨b, hb, hs⟩ := Option.bind_eq_some_iff.mp hs
    split at hs
    · cases hs
      exact ⟨h, .of_chain_eq rfl (by simp)⟩
    · rename_i b' happly
      cases hs
      have hmade := (h.builders b (List.mem_of_getElem? hb)).applySignature happly
      refine ⟨h.rework h.engine rfl fun c hc => ?_, .of_chain_eq rfl (by simp)⟩
      rcases List.mem_or_eq_of_mem_set hc with hold | rfl
      · exact h.builders c hold
      · exact hmade
  | commit i w =>
    obtain ⟨b, hb, hs⟩ := Option.bind_eq_some_iff.mp hs
    cases hs
    exact h.commit hb
  | rollback i =>
    obtain ⟨b, -, hs⟩ := Option.bind_eq_some_iff.mp hs
    cases hs
    exact ⟨⟨h.engine, h.chain, h.made_of_erase i⟩, .of_chain_eq rfl (by simp)⟩
  | discard i =>
    obtain ⟨b, -, hs⟩ := Option.bind_eq_some_iff.mp hs
    cases hs
    exact ⟨⟨h.engine, h.chain, h.made_of_erase i⟩, .of_chain_eq rfl (by simp)⟩
  | retryTaken | close | push | spoil =>
    cases hs
    exact ⟨⟨h.engine, h.chain, h.builders⟩, .of_chain_eq rfl (by simp)⟩
  | blockAt | signatureOf | lastHeight =>
    cases hs
    exact ⟨h, .of_chain_eq rfl (by simp)⟩

lemma Sound.run (h : x.Sound keys me) (acts : List Act) : (x.run acts).Sound keys me := by
  induction acts generalizing x with
  | nil => exact h
  | cons a acts ih =>
    refine ih ?_
    cases hs : x.step a with
    | none => exact h
    | some r => exact (h.step hs).1

/-- In every sequence of acts on an engine and its builders, several of them outstanding and stale
ones included, the chain is intact all along. The next act appends the block of its builder, if it
is a commit that succeeds, and leaves the chain as it is otherwise. -/
theorem chain_intact (e : Engine n) (acts : List Act) :
    let x := run ⟨{ e with chain := .empty }, []⟩ acts
    x.engine.chain.Intact e.keys e.me ∧
      ∀ a result y, x.step a = some (result, y) → x.Extends a result y := by
  have hstart : Sound e.keys e.me ⟨{ e with chain := .empty }, []⟩ :=
    ⟨⟨rfl, rfl⟩, Chain.intact_empty e.keys e.me, by simp⟩
  have hrun := hstart.run acts
  exact ⟨hrun.chain, fun a result y hs => (hrun.step hs).2⟩

section Example

/-- One of four validators. -/
def exampleEngine (me : Fin 4) : Engine 4 := { me, keys := .ofSeed 4 0, queue := ⟨[[1], [2]]⟩ }

/-- The signatures of these validators. -/
def witnessOf (keys : Keyring n) (signers : List (Fin n)) (b : Block) : Witness :=
  ⟨signers.map fun i => (keys.get i).sign b.rid⟩

/-- Two blocks are built for height one, and the second one is committed with the signatures of
three validators. That makes the first one stale: it cannot follow, whoever has signed it. -/
theorem chain_intact_committed :
    let e := exampleEngine 0
    let order : BuildOrder := ⟨1, fun _ => false, 5000⟩
    let x := run ⟨{ e with chain := .empty }, []⟩ [.build order, .build order]
    let stale := e.nextBlock 5000 [[1]]
    let b := e.nextBlock 5000 [[2]]
    let w := witnessOf e.keys [0, 1, 2] b
    ∃ y z, x.step (.commit 1 w) = some (.ok (), y) ∧
      y.engine.chain.blocks = [⟨b, w⟩] ∧
      y.engine.chain.signatures = [(b.rid, (e.keys.get 0).sign b.rid)] ∧
      y.engine.chain.Intact e.keys 0 ∧
      y.step (.commit 0 (witnessOf e.keys [0, 1, 2] stale)) =
        some (.error (.badData (.height 1 1)), z) ∧
      z.engine.chain.blocks = y.engine.chain.blocks ∧
      z.engine.chain.signatures = y.engine.chain.signatures := by
  intro e order x stale b w
  let first := Act.commit 1 w
  let second := Act.commit 0 (witnessOf e.keys [0, 1, 2] stale)
  have hfirst : (x.step first).map Prod.fst = some (.ok ()) := by decide +kernel
  have hbuilder : x.builders[1]?.map Builder.block = some b := by decide +kernel
  have hsigner : x.engine.keys.get x.engine.me = e.keys.get 0 := by decide +kernel
  have hblocks : x.engine.chain.blocks = [] := by decide +kernel
  have hsignatures : x.engine.chain.signatures = [] := by decide +kernel
  obtain ⟨maker, hmade, hblock⟩ := Option.map_eq_some_iff.mp hbuilder
  obtain ⟨⟨_, y⟩, hy, rfl⟩ := Option.map_eq_some_iff.mp hfirst
  have hrun : run ⟨{ e with chain := .empty }, []⟩ [.build order, .build order, first] = y :=
    congrArg (·.elim x Prod.snd) hy
  have hsecond : (y.step second).map Prod.fst = some (.error (.badData (.height 1 1))) := by
    rw [← hrun]
    decide +kernel
  obtain ⟨⟨_, z⟩, hz, rfl⟩ := Option.map_eq_some_iff.mp hsecond
  obtain ⟨-, hgrows⟩ := chain_intact e [.build order, .build order]
  obtain ⟨hintact, hstays⟩ := chain_intact e [.build order, .build order, first]
  simp only [hrun] at hintact hstays
  obtain ⟨hgrown, hsigned⟩ : y.engine.chain.blocks = [⟨b, w⟩] ∧
      y.engine.chain.signatures = [(b.rid, (e.keys.get 0).sign b.rid)] := by
    rcases hgrows _ _ _ hy with ⟨i, w', builder, heq, hb, -, hgrown, hsigned⟩ | ⟨-, -, hnone⟩
    · obtain ⟨rfl, rfl⟩ := Act.commit.inj heq
      obtain rfl := Option.some.inj (hb.symm.trans hmade)
      rw [hblocks, hblock] at hgrown
      rw [hsignatures, hblock, hsigner] at hsigned
      exact ⟨hgrown, hsigned⟩
    · exact absurd rfl (hnone rfl 1 w)
  refine ⟨y, z, hy, hgrown, hsigned, hintact, hz, ?_⟩
  rcases hstays _ _ _ hz with ⟨_, _, _, -, -, hok, -⟩ | ⟨hkept, hkept', -⟩
  · cases hok
  · exact ⟨hkept, hkept'⟩

end Example

end Workshop

end Conclave

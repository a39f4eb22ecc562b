import Conclave.Proofs.PendingBlock
import Conclave.Proofs.SignatureEquivocation

/-!
# What comes of a commit

A commit collects the signatures it is given, up to the first bad one, and then checks signers and
chain. Its outcome can be told from the signers before it is tried: signatures are filed by signer,
so it does not matter how often one is supplied, in which place, or who supplied it. What is written
to the chain is the block and one signature of every signer, in the order of the validators.
-/

namespace Conclave

variable {n : ℕ} {keys : Keyring n} {me : Fin n} {rid : Rid}

/-! ### Signers -/

namespace Keyring

variable {l l' : List Signature} {s : Signature} {i : Fin n}

/-- The validators that have signed `rid` with one of the signatures. -/
def signers (keys : Keyring n) (rid : Rid) (l : List Signature) : Finset (Fin n) :=
  Finset.univ.filter fun i => ∃ s ∈ l, (keys.verify s rid).toOption = some i

lemma mem_signers : i ∈ keys.signers rid l ↔ ∃ s ∈ l, keys.verify s rid = .ok i := by
  have hok : ∀ s, (keys.verify s rid).toOption = some i ↔ keys.verify s rid = .ok i := fun s => by
    cases keys.verify s rid <;> simp [Except.toOption]
  simp only [signers, Finset.mem_filter, Finset.mem_univ, true_and, hok]

/-- A validator has one valid signature over a reference. -/
lemma eq_sign_of_verify (h : keys.verify s rid = .ok i) : s = (keys.get i).sign rid := by
  have hidentity := identity_of_verify h
  unfold verify at h
  split at h
  · cases h
  split at h
  · rename_i hdata
    cases h
    obtain ⟨signer, data⟩ := s
    simp only at hidentity hdata
    rw [← hidentity, hdata]
    rfl
  · cases h

end Keyring

namespace Builder

variable {b b' : Builder n}

/-- The validators whose signatures have been collected. -/
def signatories (b : Builder n) : Finset (Fin n) :=
  Finset.univ.filter fun i => (b.collected.get i).isSome = true

lemma mem_signatories {i : Fin n} : i ∈ b.signatories ↔ (b.collected.get i).isSome = true := by
  simp [signatories]

/-- The signatories in the order of the validators. -/
def roll (b : Builder n) : List (Fin n) :=
  (List.finRange n).filter fun i => (b.collected.get i).isSome

lemma pairwise_roll (b : Builder n) : b.roll.Pairwise (· < ·) :=
  (List.sortedLT_finRange n).pairwise.filter _

lemma mem_roll {i : Fin n} : i ∈ b.roll ↔ i ∈ b.signatories := by
  simp [roll, signatories]

lemma length_roll (b : Builder n) : b.roll.length = b.signatories.card := by
  rw [roll, ← List.countP_eq_length_filter, countP_finRange]
  rfl

lemma Sound.signers_witness (h : b.Sound keys me) :
    keys.signers b.block.rid b.witness.signatures = b.signatories := by
  ext i
  rw [Keyring.mem_signers, mem_signatories]
  constructor
  · rintro ⟨s, hs, hi⟩
    obtain ⟨j, hj⟩ := Table.exists_get_of_mem_filterMap hs
    have hij : i = j := Except.ok.inj (hi.symm.trans (h.verified j s hj))
    rw [hij, hj]
    rfl
  · intro hi
    obtain ⟨s, hs⟩ := Option.isSome_iff_exists.mp hi
    exact ⟨s, Table.mem_filterMap hs, h.verified i s hs⟩

/-- A witness is a signature of each signatory, in the order of the validators. -/
lemma Sound.witness_eq (h : b.Sound keys me) :
    b.witness.signatures = b.roll.map fun i => (keys.get i).sign b.block.rid := by
  have htable : b.collected.toList = (List.finRange n).map b.collected.get :=
    List.ext_getElem (by simp) fun i _ _ => by simp [Table.get_eq_getElem]
  unfold witness roll
  simp only [htable, List.filterMap_map, Function.id_comp]
  induction List.finRange n with
  | nil => rfl
  | cons i l ih =>
    cases hi : b.collected.get i with
    | none => simp [hi, ih]
    | some s => simp [hi, ih, Keyring.eq_sign_of_verify (h.verified i s hi)]

/-- Signatures of different validators are counted one by one. -/
lemma signers_map_sign (hkeys : Function.Injective fun i => (keys.get i).identity)
    (hb : b.keys = keys) {l seen : List (Fin n)} (hl : (seen ++ l).Nodup) :
    b.signers seen (l.map fun i => (keys.get i).sign b.block.rid) = .ok (seen ++ l) := by
  induction l generalizing seen with
  | nil => simp [Builder.signers]
  | cons i l ih =>
    have hnew : i ∉ seen := fun hi => List.disjoint_of_nodup_append hl hi List.mem_cons_self
    rw [List.append_cons] at hl ⊢
    rw [List.map_cons, Builder.signers, hb, Keyring.verify_sign hkeys]
    simp only [if_neg hnew]
    exact ih hl

/-- A witness has signers enough, or is refused with the number of its signers. -/
lemma Sound.checkWitness_eq (hkeys : Function.Injective fun i => (keys.get i).identity)
    (h : b.Sound keys me) :
    b.checkWitness b.witness =
      if b.signatories.card < quorum n then
        .error (.badData (.fewSigners b.signatories.card (quorum n)))
      else .ok () := by
  have hnodup : ([] ++ b.roll).Nodup := (pairwise_roll b).imp ne_of_lt
  unfold Builder.checkWitness
  rw [h.witness_eq, signers_map_sign hkeys h.keyring hnodup]
  simp only [List.nil_append, length_roll]

/-! ### Collecting -/

/-- Signatures under the own identity are passed over. -/
lemma Sound.collect_filter (h : b.Sound keys me) (l : List Signature) :
    BlockBuilder.collect b l =
      BlockBuilder.collect b (l.filter fun s => s.signer ≠ (keys.get me).identity) := by
  induction l generalizing b with
  | nil => rfl
  | cons s l ih =>
    have hown : (BlockBuilder.signature b).signer = (keys.get me).identity :=
      congrArg Signature.signer h.signature
    by_cases hs : s.signer = (keys.get me).identity
    · rw [List.filter_cons_of_neg (by simpa using hs), BlockBuilder.collect, hown, if_pos hs]
      exact ih h
    · rw [List.filter_cons_of_pos (by simpa using hs), BlockBuilder.collect, BlockBuilder.collect,
        hown, if_neg hs, if_neg hs]
      cases happly : BlockBuilder.applySignature b s with
      | error cause => rfl
      | ok b₁ =>
        obtain ⟨-, -, -, hsound⟩ := h.applySignature happly
        exact ih hsound

/-- The first bad signature is where collecting ends. -/
lemma Sound.collect_of_bad (h : b.Sound keys me) {l : List Signature} (rest : List Signature)
    {s : Signature} {cause : EngineError} (hforeign : s.signer ≠ (keys.get me).identity)
    (hl : ∀ t ∈ l, ∃ i, keys.verify t b.block.rid = .ok i)
    (hs : keys.verify s b.block.rid = .error cause) :
    ∃ b', BlockBuilder.collect b (l ++ s :: rest) = (b', .error cause) := by
  induction l generalizing b with
  | nil =>
    have hown : (BlockBuilder.signature b).signer = (keys.get me).identity :=
      congrArg Signature.signer h.signature
    have happly : b.applySignature s = .error cause := by
      simp [Builder.applySignature, h.keyring, hs]
    refine ⟨b, ?_⟩
    rw [List.nil_append, BlockBuilder.collect, hown, if_neg hforeign, applySignature_def, happly]
  | cons t l ih =>
    have hrest : ∀ t ∈ l, ∃ i, keys.verify t b.block.rid = .ok i :=
      fun t ht => hl t (List.mem_cons_of_mem _ ht)
    rw [List.cons_append, BlockBuilder.collect]
    split
    · exact ih h hrest hs
    · obtain ⟨i, hi⟩ := hl t List.mem_cons_self
      have happly : b.applySignature t = .ok { b with collected := b.collected.put i (some t) } := by
        simp [Builder.applySignature, h.keyring, hi]
      obtain ⟨-, -, -, hsound⟩ := h.applySignature happly
      rw [applySignature_def, happly]
      exact ih hsound hrest hs

/-- Nobody is among the signatories without a signature. -/
lemma Sound.signed_of_collect (h : b.Sound keys me) {l : List Signature}
    (hl : BlockBuilder.collect b l = (b', .ok ())) {i : Fin n}
    (hi : (b'.collected.get i).isSome = true) :
    (b.collected.get i).isSome = true ∨ ∃ s ∈ l, keys.verify s b.block.rid = .ok i := by
  induction l generalizing b with
  | nil =>
    cases hl
    exact .inl hi
  | cons s l ih =>
    have hwider : (∃ t ∈ l, keys.verify t b.block.rid = .ok i) →
        ∃ t ∈ s :: l, keys.verify t b.block.rid = .ok i :=
      fun ⟨t, ht, hverify⟩ => ⟨t, List.mem_cons_of_mem _ ht, hverify⟩
    unfold BlockBuilder.collect at hl
    split at hl
    · exact (ih h hl).imp_right hwider
    · split at hl
      · cases hl
      · rename_i b₁ happly
        obtain ⟨j, hj, rfl, hsound⟩ := h.applySignature happly
        rcases ih hsound hl with hkept | hnew
        · rw [Table.get_put] at hkept
          split at hkept
          · rename_i hji
            exact .inr ⟨s, List.mem_cons_self, hji ▸ hj⟩
          · exact .inl hkept
        · exact .inr (hwider hnew)

/-- Collecting adds the signers of what is supplied to the signatories. -/
lemma Sound.signatories_collect (hkeys : Function.Injective fun i => (keys.get i).identity)
    (h : b.Sound keys me) {l : List Signature} (hl : BlockBuilder.collect b l = (b', .ok ())) :
    b'.signatories = b.signatories ∪ keys.signers b.block.rid l := by
  obtain ⟨hkept, hnew⟩ := h.isSome_collect hkeys hl
  ext i
  rw [Finset.mem_union, mem_signatories, mem_signatories, Keyring.mem_signers]
  refine ⟨h.signed_of_collect hl, ?_⟩
  rintro (hi | ⟨s, hs, hi⟩)
  · exact hkept i hi
  · exact hnew s hs i hi

end Builder

/-! ### Engines -/

lemma Chain.checkExtends_eq_ok {c : Chain} {header : Header} :
    c.checkExtends header = .ok () ↔ header.height = c.height + 1 ∧ header.parent = c.lastRid := by
  unfold Chain.checkExtends
  split
  · simp [*]
  · split <;> simp_all

namespace Engine

variable {e : Engine n} {b : Builder n}

/-- A block is committed if its signatories are a quorum and it comes next in the chain. -/
lemma commit_of_quorum (hkeys : Function.Injective fun i => (keys.get i).identity)
    (h : b.Sound keys me) (hq : quorum n ≤ b.signatories.card)
    (hextends : e.chain.checkExtends b.block.header = .ok ()) :
    e.commit b b.witness = (.ok (), { e with
      chain := e.chain.append ⟨b.block, b.witness⟩ ((keys.get me).sign b.block.rid)
      queue := e.queue.removeIncluded b.block.transactions
      taken := [] }) := by
  unfold Engine.commit
  rw [h.checkWitness_eq hkeys, if_neg (Nat.not_lt.mpr hq), hextends, ← h.signature]

lemma commit_of_refused (hkeys : Function.Injective fun i => (keys.get i).identity)
    (h : b.Sound keys me) (hrefused : ¬(quorum n ≤ b.signatories.card ∧
      e.chain.checkExtends b.block.header = .ok ())) :
    ∃ cause, e.commit b b.witness = (.error cause, e.restore) := by
  unfold Engine.commit
  rw [h.checkWitness_eq hkeys]
  split
  · exact ⟨_, rfl⟩
  · exact ⟨_, rfl⟩
  · rename_i hfew hextends
    split at hfew
    · cases hfew
    · rename_i hmany
      exact (hrefused ⟨Nat.not_lt.mp hmany, hextends⟩).elim

end Engine

/-! ### Workers -/

namespace Worker

variable {w : Worker (Engine n) (Builder n)}

/-- What the worker of validator `me` can come to. It starts with nothing pending, runs jobs and
gives its builder up, and in the meantime the engine may be used by others. -/
inductive Reached (keys : Keyring n) (me : Fin n) : Worker (Engine n) (Builder n) → Prop
  | start {e : Engine n} (of : e.IsOf keys me) : Reached keys me ⟨e, none⟩
  | run {w : Worker (Engine n) (Builder n)} (h : Reached keys me w) (order : BuildOrder)
      (job : Job) : Reached keys me (w.run order job).2
  | abandon {w : Worker (Engine n) (Builder n)} (h : Reached keys me w) : Reached keys me w.abandon
  | share {w : Worker (Engine n) (Builder n)} (h : Reached keys me w) {e : Engine n}
      (of : e.IsOf keys me) : Reached keys me { w with engine := e }

lemma Reached.keyed (hkeys : Function.Injective fun i => (keys.get i).identity)
    (h : w.Reached keys me) : w.Keyed keys me := by
  induction h with
  | start of => exact ⟨of, by simp⟩
  | run h order job ih => exact (ih.run hkeys order job).1
  | abandon h ih => exact ih.abandon
  | share h of ih => exact ⟨of, ih.builder⟩

/-- A commit that finds a bad signature keeps its block. -/
lemma Keyed.commit_of_bad (h : w.Keyed keys me) {b : Builder n} (hb : w.builder = some b)
    {signatures : List (Option Signature)} {before after : List Signature} {s : Signature}
    {cause : EngineError} (hsplit : signatures.filterMap id = before ++ s :: after)
    (hbefore : ∀ t ∈ before, t.signer ≠ (keys.get me).identity →
      ∃ i, keys.verify t b.block.rid = .ok i)
    (hforeign : s.signer ≠ (keys.get me).identity)
    (hs : keys.verify s b.block.rid = .error cause) :
    (w.commit signatures).1 = .error (.engine cause) ∧
      (w.commit signatures).2.engine = w.engine ∧
      (w.commit signatures).2.builder.map Builder.block = some b.block := by
  have hsound := h.builder b hb
  have hfilter : (before ++ s :: after).filter (fun s => s.signer ≠ (keys.get me).identity) =
      before.filter (fun s => s.signer ≠ (keys.get me).identity) ++
        s :: after.filter (fun s => s.signer ≠ (keys.get me).identity) := by
    rw [List.filter_append, List.filter_cons_of_pos (by simpa using hforeign)]
  have hvalid : ∀ t ∈ before.filter (fun s => s.signer ≠ (keys.get me).identity),
      ∃ i, keys.verify t b.block.rid = .ok i := fun t ht => by
    obtain ⟨hmem, hne⟩ := List.mem_filter.mp ht
    exact hbefore t hmem (by simpa using hne)
  obtain ⟨b', hcollect⟩ := hsound.collect_of_bad
    (after.filter fun s => s.signer ≠ (keys.get me).identity) hforeign hvalid hs
  rw [← hfilter, ← hsound.collect_filter, ← hsplit] at hcollect
  have hblock : b'.block = b.block := by
    have hall := block_collect b (signatures.filterMap id)
    rwa [hcollect] at hall
  simp only [Worker.commit, hb, hcollect]
  exact ⟨trivial, trivial, congrArg some hblock⟩

/-- A commit without a bad signature hands the block to the engine, signed by the signatories and
the signers of what is supplied. -/
lemma Keyed.commit_of_valid (hkeys : Function.Injective fun i => (keys.get i).identity)
    (h : w.Keyed keys me) {b : Builder n} (hb : w.builder = some b)
    {signatures : List (Option Signature)}
    (hvalid : ∀ s ∈ signatures.filterMap id, s.signer ≠ (keys.get me).identity →
      ∃ i, keys.verify s b.block.rid = .ok i) :
    ∃ b' : Builder n, b'.Sound keys me ∧ b'.block = b.block ∧
      b'.signatories = b.signatories ∪ keys.signers b.block.rid (signatures.filterMap id) ∧
      w.commit signatures = ((w.engine.commit b' b'.witness).1.mapError .engine,
        ⟨(w.engine.commit b' b'.witness).2, none⟩) := by
  have hsound := h.builder b hb
  obtain ⟨b', hcollect⟩ := hsound.collect_of_valid
    (l := (signatures.filterMap id).filter fun s => s.signer ≠ (keys.get me).identity)
    fun s hs => by
      obtain ⟨hmem, hne⟩ := List.mem_filter.mp hs
      exact hvalid s hmem (by simpa using hne)
  rw [← hsound.collect_filter] at hcollect
  refine ⟨b', ?_, ?_, hsound.signatories_collect hkeys hcollect, ?_⟩
  · have hall := hsound.collect (signatures.filterMap id)
    rwa [hcollect] at hall
  · have hall := block_collect b (signatures.filterMap id)
    rwa [hcollect] at hall
  · simp only [Worker.commit, hb, hcollect, Engine.commit_def, Builder.witness_def]

/-- The first signature that is not as it should be. -/
lemma exists_first_bad {p : Signature → Prop} {l : List Signature} (h : ¬∀ s ∈ l, p s) :
    ∃ good s rest, l = good ++ s :: rest ∧ (∀ t ∈ good, p t) ∧ ¬p s := by
  induction l with
  | nil => simp at h
  | cons s l ih =>
    by_cases hs : p s
    · obtain ⟨good, t, rest, rfl, hgood, ht⟩ := ih fun hl => h (List.forall_mem_cons.mpr ⟨hs, hl⟩)
      exact ⟨s :: good, t, rest, rfl, List.forall_mem_cons.mpr ⟨hs, hgood⟩, ht⟩
    · exact ⟨[], s, l, rfl, by simp, hs⟩

lemma Keyed.valid_of_commit (h : w.Keyed keys me) {b : Builder n} (hb : w.builder = some b)
    {signatures : List (Option Signature)} (hok : (w.commit signatures).1 = .ok ()) :
    ∀ s ∈ signatures.filterMap id, s.signer ≠ (keys.get me).identity →
      ∃ i, keys.verify s b.block.rid = .ok i := by
  by_contra hbad
  obtain ⟨good, s, rest, hsplit, hgood, hs⟩ := exists_first_bad hbad
  obtain ⟨hforeign, hinvalid⟩ := Classical.not_imp.mp hs
  cases hverify : keys.verify s b.block.rid with
  | ok i => exact hinvalid ⟨i, hverify⟩
  | error cause =>
    rw [(h.commit_of_bad hb hsplit hgood hforeign hverify).1] at hok
    cases hok

/-- Without a bad signature, signers and chain decide. -/
lemma Keyed.commit_cases (hkeys : Function.Injective fun i => (keys.get i).identity)
    (h : w.Keyed keys me) {b : Builder n} (hb : w.builder = some b)
    {signatures : List (Option Signature)}
    (hvalid : ∀ s ∈ signatures.filterMap id, s.signer ≠ (keys.get me).identity →
      ∃ i, keys.verify s b.block.rid = .ok i)
    {signers : Finset (Fin n)} (hsigners : signers =
      b.signatories ∪ keys.signers b.block.rid (signatures.filterMap id)) :
    ((quorum n ≤ signers.card ∧ w.engine.chain.checkExtends b.block.header = .ok ()) ∧
      ∃ (witness : Witness) (order : List (Fin n)),
        order.Pairwise (· < ·) ∧ (∀ i, i ∈ order ↔ i ∈ signers) ∧
        witness.signatures.map (keys.verify · b.block.rid) = order.map .ok ∧
        w.commit signatures = (.ok (), ⟨{ w.engine with
          chain := ⟨w.engine.chain.blocks ++ [⟨b.block, witness⟩],
            (b.block.rid, (keys.get me).sign b.block.rid) :: w.engine.chain.signatures⟩
          queue := w.engine.queue.removeIncluded b.block.transactions
          taken := [] }, none⟩)) ∨
    (¬(quorum n ≤ signers.card ∧ w.engine.chain.checkExtends b.block.header = .ok ()) ∧
      ∃ cause, w.commit signatures = (.error cause, ⟨w.engine.restore, none⟩)) := by
  obtain ⟨b', hsound, hblock, hsignatories, hcommit⟩ := h.commit_of_valid hkeys hb hvalid
  rw [← hsigners] at hsignatories
  subst hsignatories
  by_cases hready : quorum n ≤ b'.signatories.card ∧
      w.engine.chain.checkExtends b.block.header = .ok ()
  · refine .inl ⟨hready, b'.witness, b'.roll, Builder.pairwise_roll b', fun i => Builder.mem_roll,
      ?_, ?_⟩
    · rw [hsound.witness_eq, List.map_map, hblock]
      exact List.map_congr_left fun i _ => Keyring.verify_sign hkeys i _
    · rw [← hblock] at hready ⊢
      rw [hcommit, Engine.commit_of_quorum hkeys hsound hready.1 hready.2]
      rfl
  · refine .inr ⟨hready, ?_⟩
    rw [← hblock] at hready
    obtain ⟨cause, hrefused⟩ := Engine.commit_of_refused hkeys hsound hready
    exact ⟨.engine cause, by rw [hcommit, hrefused]; rfl⟩

/-- The outcome of a commit, whatever the worker has come to and whatever it is given. Without a
pending block nothing changes. With one, the commit succeeds exactly if all signatures that are not
under the own identity are valid, the block comes next in the chain, and those who signed it, in the
builder or in what is supplied, are a quorum; then the block is appended with one valid signature of
each of them, in the order of the validators, and nothing is pending any more. The first bad
signature leaves its error and the block where it was. Any other failure costs the builder, leaves
the chain, and puts the taken transactions back in front of the queue. -/
theorem commit_outcome (hkeys : Function.Injective fun i => (keys.get i).identity)
    (hw : w.Reached keys me) (signatures : List (Option Signature)) :
    (w.builder = none → w.commit signatures = (.error .noPendingBlock, w)) ∧
    ∀ b, w.builder = some b →
      let rid := b.block.rid
      let supplied := signatures.filterMap id
      let foreign := fun s : Signature => s.signer ≠ (keys.get me).identity
      let valid := fun s : Signature => ∃ i, keys.verify s rid = .ok i
      let signers := keys.signers rid b.witness.signatures ∪ keys.signers rid supplied
      let result := (w.commit signatures).1
      let after := (w.commit signatures).2
      (result = .ok () ↔
        (∀ s ∈ supplied, foreign s → valid s) ∧
        (b.block.height = w.engine.chain.height + 1 ∧
          b.block.header.parent = w.engine.chain.lastRid) ∧
        quorum n ≤ signers.card) ∧
      (result = .ok () → ∃ (witness : Witness) (order : List (Fin n)),
        order.Pairwise (· < ·) ∧ (∀ i, i ∈ order ↔ i ∈ signers) ∧
        witness.signatures.map (keys.verify · rid) = order.map .ok ∧
        after = ⟨{ w.engine with
          chain := ⟨w.engine.chain.blocks ++ [⟨b.block, witness⟩],
            (rid, (keys.get me).sign rid) :: w.engine.chain.signatures⟩
          queue := w.engine.queue.removeIncluded b.block.transactions
          taken := [] }, none⟩) ∧
      (∀ good s rest cause, supplied = good ++ s :: rest → (∀ t ∈ good, foreign t → valid t) →
        foreign s → keys.verify s rid = .error cause →
          result = .error (.engine cause) ∧ after.engine = w.engine ∧
          after.builder.map Builder.block = some b.block) ∧
      ((∀ s ∈ supplied, foreign s → valid s) → ∀ cause, result = .error cause →
        after = ⟨{ w.engine with
          queue := ⟨w.engine.taken ++ w.engine.queue.txs⟩
          taken := [] }, none⟩) := by
  have hkeyed := hw.keyed hkeys
  refine ⟨fun hnone => by simp [Worker.commit, hnone], fun b hb => ?_⟩
  intro rid supplied foreign valid signers result after
  have hsigners : signers = b.signatories ∪ keys.signers rid supplied := by
    rw [← (hkeyed.builder b hb).signers_witness]
  refine ⟨⟨fun hok => ?success, ?enough⟩, fun hok => ?sealed,
    fun good s rest cause hsplit hgood hs hcause => hkeyed.commit_of_bad hb hsplit hgood hs hcause,
    fun hvalid cause hfailed => ?failed⟩
  case success =>
    have hvalid := hkeyed.valid_of_commit hb hok
    rcases hkeyed.commit_cases hkeys hb hvalid hsigners with ⟨⟨hq, hextends⟩, -⟩ | ⟨-, cause, he⟩
    · exact ⟨hvalid, Chain.checkExtends_eq_ok.mp hextends, hq⟩
    · rw [show result = .error cause from congrArg Prod.fst he] at hok
      cases hok
  case enough =>
    rintro ⟨hvalid, hnext, hq⟩
    rcases hkeyed.commit_cases hkeys hb hvalid hsigners with
      ⟨-, witness, order, -, -, -, he⟩ | ⟨hrefused, -⟩
    · exact congrArg Prod.fst he
    · exact (hrefused ⟨hq, Chain.checkExtends_eq_ok.mpr hnext⟩).elim
  case sealed =>
    have hvalid := hkeyed.valid_of_commit hb hok
    rcases hkeyed.commit_cases hkeys hb hvalid hsigners with
      ⟨-, witness, order, hsorted, hmem, hverified, he⟩ | ⟨-, cause, he⟩
    · exact ⟨witness, order, hsorted, hmem, hverified, congrArg Prod.snd he⟩
    · rw [show result = .error cause from congrArg Prod.fst he] at hok
      cases hok
  case failed =>
    rcases hkeyed.commit_cases hkeys hb hvalid hsigners with
      ⟨-, witness, order, -, -, -, he⟩ | ⟨-, cause', he⟩
    · rw [show result = .ok () from congrArg Prod.fst he] at hfailed
      cases hfailed
    · exact congrArg Prod.snd he

section Example

open Runner (exampleKeys exampleValidator firstBlock signatureBy injective_exampleKeys)

/-- The worker of the first of four validators, with the first block pending. -/
def exampleWorker : Worker (Engine 4) (Builder 4) :=
  (exampleValidator.pipeline.worker.run ⟨100, fun _ => false, 0⟩ (.load (firstBlock 1000))).2

/-- Not a signature, but under the name of validator `i`. -/
def forgedBy (i : Fin 4) : Signature := ⟨(exampleKeys.get i).identity, []⟩

/-- A forged signature under the own name is passed over, and one that comes twice counts once; two
more signers are a quorum. One that is forged under another name ends the commit. -/
theorem commit_outcome_three_signers :
    let b := firstBlock 1000
    let supplied := [some (forgedBy 0), some (signatureBy 2 b), none, some (signatureBy 1 b),
      some (signatureBy 2 b)]
    let spoiled := [some (signatureBy 1 b), some (forgedBy 3), some (signatureBy 2 b)]
    (∃ (witness : Witness) (order : List (Fin 4)), order.Pairwise (· < ·) ∧ 3 ≤ order.length ∧
      witness.signatures.map (exampleKeys.verify · b.rid) = order.map .ok ∧
      (exampleWorker.commit supplied).2.engine.chain.blocks = [⟨b, witness⟩] ∧
      (exampleWorker.commit supplied).2.builder = none) ∧
    (exampleWorker.commit spoiled).1 = .error (.engine (.badData (.signature 3 b.rid))) ∧
      (exampleWorker.commit spoiled).2.builder.map Builder.block = some b := by
  intro b supplied spoiled
  have hreached : exampleWorker.Reached exampleKeys 0 :=
    (Reached.start (e := { me := 0, keys := exampleKeys }) ⟨rfl, rfl⟩).run _ _
  have hpending : exampleWorker.builder.map Builder.block = some b := by decide +kernel
  obtain ⟨builder, hb, hblock⟩ := Option.map_eq_some_iff.mp hpending
  have hok : (exampleWorker.commit supplied).1 = .ok () := by decide +kernel
  have hempty : exampleWorker.engine.chain.blocks = [] := by decide +kernel
  have hforged : exampleKeys.verify (forgedBy 3) b.rid = .error (.badData (.signature 3 b.rid)) := by
    decide +kernel
  obtain ⟨hiff, hsealed, -, -⟩ :=
    (commit_outcome injective_exampleKeys hreached supplied).2 builder hb
  obtain ⟨-, -, hbad, -⟩ := (commit_outcome injective_exampleKeys hreached spoiled).2 builder hb
  rw [hblock] at hiff hsealed hbad
  obtain ⟨witness, order, hsorted, hmem, hverified, hafter⟩ := hsealed hok
  have hlength : 3 ≤ order.length := by
    have hquorum : quorum 4 ≤ _ := (hiff.mp hok).2.2
    refine hquorum.trans ((Finset.card_le_card fun i hi => ?_).trans order.toFinset_card_le)
    exact List.mem_toFinset.mpr ((hmem i).mpr hi)
  have hsigned : ∀ t ∈ [signatureBy 1 b], ∃ i, exampleKeys.verify t b.rid = .ok i := fun t ht => by
    obtain rfl := List.mem_singleton.mp ht
    exact ⟨1, by decide +kernel⟩
  obtain ⟨herror, -, hkept⟩ := hbad [signatureBy 1 b] (forgedBy 3) [signatureBy 2 b] _ rfl
    (fun t ht _ => hsigned t ht) (by decide) hforged
  refine ⟨⟨witness, order, hsorted, hlength, hverified, ?_, by rw [hafter]⟩, herror, hkept⟩
  rw [hafter]
  simp only [hempty, List.nil_append]

end Example

end Worker

end Conclave

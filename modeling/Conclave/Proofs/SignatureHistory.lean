import Conclave.Proofs.InputEffects
import Conclave.Proofs.Settling

/-!
# Where the signatures in hand come from

A block that comes to hand empties the slots of all signatures but its own, and with a block that
goes all are empty. In between only signatures of that block are filed. So whatever a slot has was
given together with the block in hand, after that block was taken.
-/

namespace Conclave.Manager

variable {n : ℕ} {m m' x y : Manager n} {rid : Rid}

/-! ### One input -/

/-- The signature that an input has for the slot of validator `i`. -/
def Input.signatureFor (i : Fin n) : Input → Option Signature
  | .commitSignature node _ s => if node = i then some s else none
  | _ => none

lemma Input.signatureFor_eq_some {input : Input} {i : Fin n} {s : Signature}
    (h : input.signatureFor i = some s) : ∃ rid, input = .commitSignature i rid s := by
  cases input with
  | commitSignature node rid s' =>
    simp only [signatureFor, Option.ite_none_right_eq_some, Option.some.injEq] at h
    obtain ⟨rfl, rfl⟩ := h
    exact ⟨rid, rfl⟩
  | _ => cases h

lemma signatures_of_step (h : x.step = some y) (hp : y.own.phase ≠ .waitBlock) :
    y.signatures = x.signatures := by
  cases stride_of_step h with
  | catchUp unprepared _ _ becomes =>
    rw [becomes.own_eq] at hp
    exact (unprepared (dropped_eq_of_holding hp)).elim
  | nextRound _ _ _ becomes =>
    rw [becomes.own_eq] at hp
    have hprepared := dropped_eq_of_holding hp
    rw [becomes.signatures, keptSignatures_of_ne (by simp [hprepared])]
  | await _ _ _ _ becomes => exact becomes.signatures
  | prepare _ _ _ _ becomes => exact becomes.signatures
  | commit _ _ _ _ becomes => exact becomes.signatures
  | gather _ _ _ _ _ _ _ becomes => exact becomes.signatures

/-- While a block stays in hand, only signatures change the slots. -/
lemma Move.signatures_eq {input : Input} (h : Move input x y) (ht : input.takes = false)
    (hs : ∀ node rid s, input ≠ .commitSignature node rid s) (hp : y.own.phase ≠ .waitBlock) :
    y.signatures = x.signatures := by
  cases h with
  | rest => rfl
  | step h => exact signatures_of_step h hp
  | cutOff => rfl
  | reject => rfl
  | setTime => rfl
  | hear i s => exact hear_signatures x i s
  | climb =>
    rw [(becomes_climb x).own_eq] at hp
    exact (hp rfl).elim
  | take rid signature wanted =>
    rcases wanted with ⟨rfl, -⟩ | ⟨rfl, -⟩ <;> simp [Input.takes] at ht
  | collect i rid signature told => exact (hs i rid signature told).elim
  | rebel => exact (becomes_rebel x).signatures

lemma signatures_respond {input : Input} (ht : input.takes = false)
    (hs : ∀ node rid s, input ≠ .commitSignature node rid s)
    (hp : (m.respond input).1.own.phase ≠ .waitBlock) :
    (m.respond input).1.signatures = m.signatures := by
  revert hp
  refine respond_invariant (P := fun x => x.own.phase ≠ .waitBlock → x.signatures = m.signatures)
    (fun _ => rfl) fun x y hmove hx hp => ?_
  exact (hmove.signatures_eq ht hs hp).trans (hx (hmove.steady ht hp).1)

lemma signatures_recompute (hp : m.recompute.own.phase ≠ .waitBlock) :
    m.recompute.signatures = m.signatures :=
  (signatures_respond rfl (by simp) hp : (m.respond .recompute).1.signatures = m.signatures)

lemma respond_commitSignature {node : ℕ} {s : Signature}
    (h : (m.respond (.commitSignature node rid s)).2 = true) :
    ∃ i : Fin n, node = i ∧ m.own.rid = some rid ∧
      m.respond (.commitSignature node rid s) = ((m.collect i s).recompute, true) := by
  simp only [respond, onCommitSignature] at h ⊢
  split at h
  · rename_i hn
    split at h
    · rename_i hp
      exact ⟨⟨node, hn⟩, rfl, hp.2, by simp only [hn, dite_true, hp, and_self, if_true]; rfl⟩
    · cases h
  · cases h

/-- A slot has the signature that an applied input files in it, or what it had. -/
lemma slot_respond {input : Input} (ht : input.takes = false)
    (ha : (m.respond input).2 = true) (hp : (m.respond input).1.own.phase ≠ .waitBlock)
    (i : Fin n) :
    (m.respond input).1.signatures.get i = (input.signatureFor i).or (m.signatures.get i) := by
  by_cases hs : ∃ node rid s, input = .commitSignature node rid s
  · obtain ⟨node, rid, s, rfl⟩ := hs
    obtain ⟨j, rfl, -, he⟩ := respond_commitSignature ha
    rw [he] at hp ⊢
    rw [signatures_recompute hp, (becomes_collect m j s).signatures, Table.get_put]
    simp only [Input.signatureFor, Fin.val_inj]
    split
    · rfl
    · rfl
  · have hnone : input.signatureFor i = none := by
      by_contra hne
      obtain ⟨s, hsome⟩ := Option.ne_none_iff_exists'.mp hne
      obtain ⟨rid, rfl⟩ := Input.signatureFor_eq_some hsome
      exact hs ⟨i, rid, s, rfl⟩
    rw [signatures_respond ht (fun node rid s he => hs ⟨node, rid, s, he⟩) hp, hnone,
      Option.none_or]

/-- An input that is turned down leaves no moments in between. -/
lemma moments_of_unapplied {input : Input} (h : (m.respond input).2 = false) :
    m.moments input = [m, (m.respond input).1] ∧
      m.Becomes (m.respond input).1 m.own m.signatures m.intent := by
  rcases respond_cases m input with ⟨x, -, he⟩ | ⟨-, committed, rfl, hge, -⟩ | ⟨ho, hf, becomes⟩
  · rw [he] at h
    cases h
  · simp [respond, fastForward, hge] at h
  · refine ⟨?_, becomes⟩
    unfold moments
    rw [ho]
    split
    · rename_i hx
      cases hx
    · rename_i committed _
      exact if_pos (hf committed rfl)
    · rfl

/-- Unless an input takes a block, the one in hand after it was in hand all along. -/
lemma held_moments {input : Input} (ht : input.takes = false)
    (hp : (m.respond input).1.own.phase ≠ .waitBlock)
    (hr : (m.respond input).1.own.rid = some rid) :
    ∀ x ∈ m.moments input, x.own.rid = some rid := by
  have hpath := isPath_moments m input
  have hall : ∀ x ∈ m.moments input, x.own.phase ≠ .waitBlock ∧ x.own.rid = some rid := by
    refine hpath.chain.backwards_induction _ _ ?_ fun hne => ?_
    · rintro x y hmove ⟨hy, hrid⟩
      obtain ⟨hx, he⟩ := hmove.steady ht hy
      exact ⟨hx, he.symm.trans hrid⟩
    · have hlast := hpath.last
      rw [List.getLast?_eq_some_getLast hne] at hlast
      rw [Option.some.inj hlast]
      exact ⟨hp, hr⟩
  exact fun x hx => (hall x hx).2

/-! ### Runs -/

/-- Those inputs of a run that are applied. -/
def applied (m : Manager n) : List Input → List Input
  | [] => []
  | input :: inputs =>
    match m.handle input with
    | .error _ => []
    | .ok (m, true) => input :: applied m inputs
    | .ok (m, false) => applied m inputs

/-- From `m` to `m'` the block `rid` is in hand. Signatures that are applied on the way are for that
block, and the last one for a slot is what it has in the end. -/
structure Retains (m : Manager n) (rid : Rid) (moments : List (Manager n)) (inputs : List Input)
    (m' : Manager n) : Prop where
  held : ∀ x ∈ moments, x.own.rid = some rid
  about : ∀ node rid' s, .commitSignature node rid' s ∈ inputs → rid' = rid
  slots : ∀ i, m'.signatures.get i =
    (inputs.filterMap (Input.signatureFor i)).getLast?.or (m.signatures.get i)

namespace Retains

variable {moments moments' : List (Manager n)} {inputs inputs' : List Input}

lemma append (h : Retains m rid moments inputs x) (h' : Retains x rid moments' inputs' m') :
    Retains m rid (moments ++ moments') (inputs ++ inputs') m' where
  held y hy := (List.mem_append.mp hy).elim (h.held y) (h'.held y)
  about node rid' s hs :=
    (List.mem_append.mp hs).elim (h.about node rid' s) (h'.about node rid' s)
  slots i := by
    rw [h'.slots, h.slots, List.filterMap_append, List.getLast?_append, Option.or_assoc]

/-- A signature was there at the start, or an applied input has filed it with the block. -/
lemma source (h : Retains m rid moments inputs m') {i : Fin n} {s : Signature}
    (hs : m'.signatures.get i = some s) :
    m.signatures.get i = some s ∨ .commitSignature i rid s ∈ inputs := by
  rw [h.slots, Option.or_eq_some_iff] at hs
  rcases hs with hs | ⟨-, hs⟩
  · obtain ⟨input, hmem, hsome⟩ := List.mem_filterMap.mp (List.mem_of_getLast? hs)
    obtain ⟨rid', rfl⟩ := Input.signatureFor_eq_some hsome
    obtain rfl := h.about i rid' s hmem
    exact .inr hmem
  · exact .inl hs

end Retains

lemma retains_of_unapplied {input : Input} (ha : (m.respond input).2 = false)
    (hr : (m.respond input).1.own.rid = some rid) :
    Retains m rid (m.moments input) [] (m.respond input).1 := by
  obtain ⟨hmoments, becomes⟩ := moments_of_unapplied ha
  have hm : m.own.rid = some rid := by rwa [← becomes.own_eq]
  refine ⟨fun x hx => ?_, by simp, fun i => by simp [becomes.signatures]⟩
  rw [hmoments] at hx
  rcases List.mem_pair.mp hx with rfl | rfl
  · exact hm
  · exact hr

lemma retains_of_applied {input : Input} (ht : input.takes = false)
    (ha : (m.respond input).2 = true) (hp : (m.respond input).1.own.phase ≠ .waitBlock)
    (hr : (m.respond input).1.own.rid = some rid) :
    Retains m rid (m.moments input) [input] (m.respond input).1 where
  held := held_moments ht hp hr
  about node rid' s hs := by
    obtain rfl := List.mem_singleton.mp hs
    obtain ⟨-, -, hheld, -⟩ := respond_commitSignature ha
    have hsame := (steady_respond (m := m) _ ht hp).2
    rw [hr, hheld] at hsame
    exact (Option.some.inj hsame).symm
  slots i := by
    rw [slot_respond ht ha hp]
    cases h : input.signatureFor i <;> simp [h]

/-- Unless an input takes a block, one that is in hand after it has stayed there. -/
lemma retains_respond {input : Input} (h : ¬(input.takes = true ∧ (m.respond input).2 = true))
    (hp : (m.respond input).1.own.phase ≠ .waitBlock)
    (hr : (m.respond input).1.own.rid = some rid) :
    Retains m rid (m.moments input) (if (m.respond input).2 then [input] else [])
      (m.respond input).1 := by
  cases ha : (m.respond input).2 with
  | false => exact retains_of_unapplied ha hr
  | true =>
    have ht : input.takes = false := Bool.eq_false_iff.mpr fun ht => h ⟨ht, ha⟩
    exact retains_of_applied ht ha hp hr

/-- A block that is taken in hand, if it stays there, is the one the input brings. -/
lemma taken_respond {input : Input} (ht : input.takes = true) (ha : (m.respond input).2 = true)
    (hp : (m.respond input).1.own.phase ≠ .waitBlock)
    (hr : (m.respond input).1.own.rid = some rid) :
    ∃ first, (input = .received rid first ∨ input = .built rid first) ∧
      (m.respond input).1.signatures =
        Table.put (Vector.replicate n none) (m.respond input).1.me (some first) := by
  obtain ⟨rid', first, hi⟩ :
      ∃ rid' first, input = .received rid' first ∨ input = .built rid' first := by
    cases input <;> simp [Input.takes] at ht ⊢
  rcases respond_block m hi with he | ⟨cause, he⟩
  · rw [he] at hp hr
    rw [rid_of_taken hp] at hr
    obtain rfl := Option.some.inj hr
    refine ⟨first, hi, ?_⟩
    rw [(fixed_respond m input).1, he, signatures_recompute hp,
      (becomes_take m rid' first).signatures]
  · rw [he] at ha
    cases ha

lemma applied_cons {input : Input} {inputs : List Input}
    (h : (m.respond input).1.own.inRange = true) :
    m.applied (input :: inputs) =
      (if (m.respond input).2 then [input] else []) ++ (m.respond input).1.applied inputs := by
  rw [applied, handle_of_inRange h]
  rcases m.respond input with ⟨x, _ | _⟩
  · rfl
  · rfl

/-- The inputs lead from `m` to `m'`, and one of them brings the block `rid`, which is in hand from
then on. The signature that comes with it is the only one then. -/
inductive Brings (m : Manager n) (inputs : List Input) (m' : Manager n) (rid : Rid) : Prop
  | intro (before since : List Input) (taking : Input) (first : Signature) (x y : Manager n)
      (split : inputs = before ++ taking :: since) (reached : m.run before = .ok x)
      (brought : taking = .received rid first ∨ taking = .built rid first)
      (accepted : x.handle taking = .ok (y, true))
      (alone : y.signatures = Table.put (Vector.replicate n none) y.me (some first))
      (ended : y.run since = .ok m') (retains : Retains y rid (y.trail since) (y.applied since) m')

lemma Brings.cons {input : Input} {inputs : List Input}
    (hin : (m.respond input).1.own.inRange = true)
    (h : Brings (m.respond input).1 inputs m' rid) : Brings m (input :: inputs) m' rid := by
  obtain ⟨before, since, taking, first, x, y, split, reached, brought, accepted, alone, ended,
    retains⟩ := h
  have hreached : m.run (input :: before) = .ok x := run_cons_eq_ok.mpr ⟨hin, reached⟩
  exact ⟨input :: before, since, taking, first, x, y, congrArg (input :: ·) split, hreached,
    brought, accepted, alone, ended, retains⟩

/-- A block in hand was in hand from the start, or one of the inputs brings it. -/
theorem Coherent.retains_or_brings (hm : m.Coherent) {inputs : List Input}
    (hrun : m.run inputs = .ok m') (hr : m'.own.rid = some rid) :
    Retains m rid (m.trail inputs) (m.applied inputs) m' ∨ Brings m inputs m' rid := by
  induction inputs generalizing m with
  | nil =>
    cases hrun
    exact .inl ⟨by simpa [trail] using hr, by simp [applied], by simp [applied]⟩
  | cons input inputs ih =>
    obtain ⟨hin, hrest⟩ := run_cons_eq_ok.mp hrun
    have hx := hm.respond input
    -- If the rest of the run brings the block, the first input does not matter.
    rcases ih hx hrest with hretains | hbrings
    · have hrx : (m.respond input).1.own.rid = some rid :=
        hretains.held _ (List.mem_of_head? (head?_trail _ _))
      have hpx : (m.respond input).1.own.phase ≠ .waitBlock := fun hp => by
        simp [hx.rid_eq_none.mpr hp] at hrx
      by_cases htaken : input.takes = true ∧ (m.respond input).2 = true
      · obtain ⟨first, hbrought, halone⟩ := taken_respond htaken.1 htaken.2 hpx hrx
        have haccepted : m.handle input = .ok ((m.respond input).1, true) := by
          rw [← htaken.2]
          exact handle_of_inRange hin
        exact .inr ⟨[], inputs, input, first, m, _, rfl, rfl, hbrought, haccepted, halone, hrest,
          hretains⟩
      · refine .inl ?_
        rw [trail_cons hin, applied_cons hin]
        exact (retains_respond htaken hpx hrx).append hretains
    · exact .inr (hbrings.cons hin)

/-! ### Reachable managers -/

lemma get_alone (me i : Fin n) (s : Signature) :
    (Table.put (Vector.replicate n none) me (some s)).get i = if i = me then some s else none := by
  rw [Table.get_put, Table.get_replicate]
  simp only [eq_comm]

lemma Coherent.slot_of_having (hm : m.Coherent) (hp : m.own.phase = .haveBlock) (i : Fin n) :
    (m.signatures.get i).isSome = true ↔ i = m.me := by
  obtain ⟨s, hs⟩ := hm.sigs_of_having hp
  rw [hs, get_alone]
  split <;> simp [*]

/-- A validator starts without a block, so one of the inputs brings it. -/
lemma brings_of_start {config : Config} {me : Fin n} {height wallMillis : ℕ} {inputs : List Input}
    (hrun : (start config me height wallMillis).run inputs = .ok m) (hr : m.own.rid = some rid) :
    Brings (start config me height wallMillis) inputs m rid := by
  have hstart := coherent_start config me height wallMillis
  refine (hstart.retains_or_brings hrun hr).resolve_left fun hretains => ?_
  have hheld := hretains.held _ (List.mem_of_head? (head?_trail _ _))
  rw [hstart.rid_eq_none.mpr (waits_start config me height wallMillis)] at hheld
  cases hheld

/-- Whatever a validator is told and however early its recomputes are cut off, the parts of its
manager fit together: its tables have an entry for each validator; it has a block unless it waits
for one; it has no signatures while it waits, only its own while its block is not prepared, and at
least its own then; its intent is one for its phase; and it commits with the signatures of a quorum.
A block in hand came with one of the inputs and has stayed since. Each slot has the last signature
for this block that was applied to it from then on, or else, if it is the own one, the signature
that came with the block. -/
theorem parts_fit_together {config : Config} {me : Fin n} {height wallMillis : ℕ}
    {inputs : List Input} (hrun : (start config me height wallMillis).run inputs = .ok m) :
    (m.statuses.toList.length = n ∧ m.signatures.toList.length = n ∧ m.heardAt.toList.length = n ∧
      m.revoltSeen.toList.length = n ∧ m.revoltsAgainst.toList.length = n) ∧
    (m.own.phase = .waitBlock ↔ m.own.rid = none) ∧
    (m.own.phase = .waitBlock → (∀ i, m.signatures.get i = none) ∧
      (m.intent = .doNothing ∨ m.intent = .buildBlock ∨
        m.intent = .fetchBlockAtHeight m.own.height ∨
        ∃ rid, m.intent = .fetchUnfinishedBlock rid)) ∧
    (m.own.phase = .haveBlock →
      (∀ i, (m.signatures.get i).isSome = true ↔ i = me) ∧ m.intent = .doNothing) ∧
    (m.own.phase = .prepared → (m.signatures.get me).isSome = true ∧
      (m.intent = .doNothing ∨ m.intent = .commitBlock ∨
        ∃ rid nodes, m.own.rid = some rid ∧ m.intent = .fetchCommitSignatures rid nodes)) ∧
    (m.intent = .commitBlock → m.own.phase = .prepared ∧
      quorum n ≤ (Finset.univ.filter fun i => (m.signatures.get i).isSome = true).card) ∧
    ∀ rid, m.own.rid = some rid → ∃ before taking since first x y,
      inputs = before ++ taking :: since ∧
      (start config me height wallMillis).run before = .ok x ∧
      (taking = .received rid first ∨ taking = .built rid first) ∧
      x.handle taking = .ok (y, true) ∧ y.run since = .ok m ∧
      (∀ z ∈ y.trail since, z.own.rid = some rid) ∧
      (∀ i, m.signatures.get i = ((y.applied since).filterMap (Input.signatureFor i)).getLast?.or
        (if i = me then some first else none)) ∧
      ∀ i s, m.signatures.get i = some s →
        (i = me ∧ s = first) ∨ .commitSignature i rid s ∈ y.applied since := by
  have hm : m.Coherent := (coherent_start config me height wallMillis).run hrun
  have hme : m.me = me := (fixed_run hrun).1.trans (fixed_start config me height wallMillis).1
  refine ⟨by simp, hm.rid_eq_none.symm, ?waiting, ?having, ?prepared, ?committing, ?history⟩
  case waiting =>
    intro hp
    exact ⟨fun i => by rw [hm.sigs_of_waiting hp, Table.get_replicate], hm.intent_of_waiting hp⟩
  case having =>
    intro hp
    rw [← hme]
    exact ⟨hm.slot_of_having hp, hm.intent_of_having hp⟩
  case prepared =>
    intro hp
    rw [← hme]
    refine ⟨hm.sigs_of_prepared hp, ?_⟩
    rcases hm.intent_of_prepared hp with h | ⟨h, -⟩ | h
    · exact .inl h
    · exact .inr (.inl h)
    · exact .inr (.inr h)
  case committing =>
    intro hi
    have hp := hm.prepared_of_committing hi
    rw [← signed_eq_card]
    exact ⟨hp, hm.signed_of_committing hp hi⟩
  case history =>
    intro rid hr
    obtain ⟨before, since, taking, first, x, y, split, reached, brought, accepted, alone, ended,
      retains⟩ := brings_of_start hrun hr
    have hy : ∀ i, y.signatures.get i = if i = me then some first else none := by
      intro i
      rw [alone, get_alone, ← (fixed_run ended).1, hme]
    refine ⟨before, taking, since, first, x, y, split, reached, brought, accepted, ended,
      retains.held, fun i => by rw [retains.slots, hy], fun i s hs => ?_⟩
    refine (retains.source hs).imp (fun h => ?_) id
    rw [hy] at h
    split at h
    · exact ⟨by assumption, (Option.some.inj h).symm⟩
    · cases h

/-- With one step for every recompute. Validator 1 signs twice, and its second signature is the one
that is kept, with the block that was built. -/
theorem parts_fit_together_replaced :
    let peer := NodeStatus.mk 4 1 0 .prepared (some .zero) false
    let second : Signature := { signer := [1], data := [2] }
    let inputs : List Input := [.built .zero default, .status 1 peer, .status 2 peer,
      .commitSignature 1 .zero default, .commitSignature 1 .zero second]
    ∃ m, (start { maxIterations := 1 } (0 : Fin 4) 4 0).run inputs = .ok m ∧
      m.own.phase = .prepared ∧ (m.signatures.get 0).isSome = true ∧
      m.signatures.get 1 = some second ∧
      ∃ before taking since, ∃ y : Manager 4, inputs = before ++ taking :: since ∧
        y.run since = .ok m ∧ .commitSignature 1 .zero second ∈ y.applied since := by
  intro peer second inputs
  have hview : ((start { maxIterations := 1 } (0 : Fin 4) 4 0).run inputs).toOption.map
      (fun m => (m.own.phase, m.own.rid, m.signatures.get 1)) =
        some (.prepared, some .zero, some second) := by decide +kernel
  obtain ⟨m, hm, hseen⟩ := Option.map_eq_some_iff.mp hview
  simp only [Prod.mk.injEq] at hseen
  obtain ⟨hphase, hrid, hslot⟩ := hseen
  obtain ⟨-, -, -, -, hprepared, -, hhistory⟩ := parts_fit_together (ok_of_toOption hm)
  obtain ⟨before, taking, since, first, x, y, hsplit, -, -, -, hended, -, -, hsource⟩ :=
    hhistory .zero hrid
  refine ⟨m, ok_of_toOption hm, hphase, (hprepared hphase).1, hslot, before, taking, since, y,
    hsplit, hended, ?_⟩
  refine (hsource 1 second hslot).resolve_left ?_
  rintro ⟨hme, -⟩
  cases hme

end Conclave.Manager

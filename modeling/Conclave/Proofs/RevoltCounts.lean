import Conclave.Proofs.ManagerMoves
import Mathlib.Data.List.Destutter
import Mathlib.Data.Finset.Card
import Mathlib.Data.Finset.Dedup
import Mathlib.Data.List.Count

/-!
# Who revolts against whom

A peer's status that is applied and says that the peer revolts at the own height is a vote against
the primary of that height and round. The manager keeps for each peer the vote that it counted last,
and counts the next one if it differs. What is counted of the votes of a peer is therefore the list
of them without repetitions in a row: each of them once, as long as the peer never returns to a
round that it has left.
-/

namespace Conclave

/-! ### Lists without repetitions in a row -/

section Destutter

variable {α : Type} [DecidableEq α] {l : List α}

lemma destutter'_concat (a b : α) (l : List α) :
    (l ++ [a]).destutter' (· ≠ ·) b =
      if (b :: l).getLast? = some a then l.destutter' (· ≠ ·) b
      else l.destutter' (· ≠ ·) b ++ [a] := by
  induction l generalizing b with
  | nil =>
    by_cases h : b = a
    · simp [h]
    · simp [h]
  | cons c l ih =>
    by_cases h : b = c
    · rw [List.cons_append, List.destutter'_cons_neg _ (not_not.2 h), ih,
        List.destutter'_cons_neg _ (not_not.2 h), h, List.getLast?_cons_cons]
    · rw [List.cons_append, List.destutter'_cons_pos _ h, ih, List.destutter'_cons_pos _ h,
        List.getLast?_cons_cons]
      split <;> rfl

/-- A last element is kept unless it repeats the one before. -/
lemma destutter_concat (a : α) (l : List α) :
    (l ++ [a]).destutter (· ≠ ·) =
      if l.getLast? = some a then l.destutter (· ≠ ·) else l.destutter (· ≠ ·) ++ [a] := by
  cases l with
  | nil => rfl
  | cons b l => exact destutter'_concat a b l

lemma mem_destutter_ne {a : α} : a ∈ l.destutter (· ≠ ·) ↔ a ∈ l := by
  constructor
  · exact fun h => (l.destutter_sublist _).subset h
  · intro h
    induction l using List.reverseRecOn with
    | nil => cases h
    | append_singleton l b ih =>
      rw [destutter_concat]
      rcases List.mem_append.1 h with h | h
      · split
        · exact ih h
        · exact List.mem_append_left _ (ih h)
      · rw [List.mem_singleton.1 h]
        split
        · rename_i hlast
          exact List.mem_singleton.1 h ▸ ih (List.mem_singleton.1 h ▸ List.mem_of_getLast? hlast)
        · simp

omit [DecidableEq α] in
/-- Neighbours differ, and nothing comes back after something else. -/
lemma nodup_of_isChain_ne (hchain : l.IsChain (· ≠ ·))
    (h : ∀ a b, [a, b, a].Sublist l → b = a) : l.Nodup := by
  induction l with
  | nil => exact List.nodup_nil
  | cons a l ih =>
    have htail : l.Nodup := ih hchain.tail fun b c hbc => h b c (hbc.cons a)
    rw [List.nodup_cons]
    refine ⟨?_, htail⟩
    intro hmem
    cases l with
    | nil => cases hmem
    | cons b l =>
      have hne : a ≠ b := List.isChain_cons_cons.1 hchain |>.1
      have hlater : a ∈ l := (List.mem_cons.1 hmem).resolve_left hne
      have hback : [a, b, a].Sublist (a :: b :: l) :=
        ((List.singleton_sublist.2 hlater).cons_cons b).cons_cons a
      exact hne (h a b hback).symm

/-- If nothing comes back after something else, then each element is kept once. -/
lemma nodup_destutter_ne (h : ∀ a b, [a, b, a].Sublist l → b = a) :
    (l.destutter (· ≠ ·)).Nodup :=
  nodup_of_isChain_ne (l.isChain_destutter _) fun a b hab =>
    h a b (hab.trans (l.destutter_sublist _))

end Destutter

/-! ### Votes -/

/-- A peer that revolts at a height and in a round. -/
structure RevoltVote where
  node : ℕ
  height : ℕ
  round : ℕ
deriving DecidableEq

def RevoltVote.slot (v : RevoltVote) : ℕ × ℕ := (v.height, v.round)

lemma RevoltVote.eq_of_slot {v w : RevoltVote} (hnode : v.node = w.node) (hslot : v.slot = w.slot) :
    v = w := by
  cases v
  cases w
  simp_all [slot]

/-- The vote that an event tells of. -/
def Event.vote? : Event → Option RevoltVote
  | .revoltObserved node _ height round => some ⟨node, height, round⟩
  | _ => none

namespace Manager

variable {n : ℕ} {m x y : Manager n} {cast : List RevoltVote} {input : Input}

/-- What is told of a vote: it is against the primary of its height and round. -/
def voteEvent (m : Manager n) (v : RevoltVote) : Event :=
  .revoltObserved v.node (m.primaryFor v.height v.round) v.height v.round

/-- The events about revolts, newest first. -/
def revoltEvents (m : Manager n) : List Event := m.journal.filter (·.vote?.isSome)

/-- The votes that were told of, oldest first. -/
def observed (m : Manager n) : List RevoltVote := (m.revoltEvents.filterMap Event.vote?).reverse

/-- The vote in an input: a status that is applied and has its peer revolting at the own height. -/
def vote? (m : Manager n) : Input → Option RevoltVote
  | .status node s =>
    if (m.respond (.status node s)).2 ∧ s.revolting ∧ s.height = m.own.height then
      some ⟨node, s.height, s.round⟩
    else none
  | _ => none

/-- The votes in the inputs of a run, oldest first. -/
def votes (m : Manager n) : List Input → List RevoltVote
  | [] => []
  | input :: inputs => (m.vote? input).toList ++ (m.respond input).1.votes inputs

/-! ### Changes that count no vote -/

/-- `x` has counted the votes that `m` has. -/
structure SameRevolts (m x : Manager n) : Prop where
  seen : x.revoltSeen = m.revoltSeen
  against : x.revoltsAgainst = m.revoltsAgainst
  told : x.revoltEvents = m.revoltEvents

namespace SameRevolts

lemma refl (m : Manager n) : SameRevolts m m := ⟨rfl, rfl, rfl⟩

lemma record (h : SameRevolts m x) {e : Event} (he : e.vote? = none) :
    SameRevolts m (x.record e) := by
  refine ⟨h.seen, h.against, ?_⟩
  rw [← h.told]
  simp [revoltEvents, Manager.record, he]

lemma modifyOwn (h : SameRevolts m x) (f : NodeStatus → NodeStatus) :
    SameRevolts m (x.modifyOwn f) := ⟨h.seen, h.against, h.told⟩

lemma clearSignatures (h : SameRevolts m x) : SameRevolts m x.clearSignatures :=
  ⟨h.seen, h.against, h.told⟩

lemma collect (h : SameRevolts m x) (i : Fin n) (signature : Signature) :
    SameRevolts m (x.collect i signature) := ⟨h.seen, h.against, h.told⟩

lemma setIntent (h : SameRevolts m x) (intent : Intent) : SameRevolts m (x.setIntent intent) := by
  unfold Manager.setIntent
  split
  · exact h
  · have hrecord := h.record (e := .intentChanged x.intent intent) rfl
    exact ⟨hrecord.seen, hrecord.against, hrecord.told⟩

lemma setPhase (h : SameRevolts m x) (phase : Phase) : SameRevolts m (x.setPhase phase) := by
  unfold Manager.setPhase
  split
  · exact h
  · exact (h.modifyOwn _).record rfl

lemma dropUnprepared (h : SameRevolts m x) : SameRevolts m x.dropUnprepared := by
  unfold Manager.dropUnprepared
  split
  · exact ((h.setPhase .waitBlock).modifyOwn _).clearSignatures
  · exact h

lemma advanceRound (h : SameRevolts m x) : SameRevolts m x.advanceRound := by
  have hown := h.dropUnprepared.modifyOwn
    fun s => { s with revolting := false, round := s.round + 1, serial := s.serial + 1 }
  refine ⟨hown.seen, hown.against, ?_⟩
  rw [← hown.told]
  rfl

lemma prepare (h : SameRevolts m x) : SameRevolts m x.prepare :=
  (h.setPhase .prepared).modifyOwn _

lemma cutOff (h : SameRevolts m x) : SameRevolts m x.cutOff := by
  have hrecord := h.record (e := .limitReached x.config.maxIterations) rfl
  exact ⟨hrecord.seen, hrecord.against, hrecord.told⟩

lemma climb (h : SameRevolts m x) : SameRevolts m x.climb :=
  ((((h.modifyOwn _).setPhase _).clearSignatures).setIntent _).record rfl

lemma take (h : SameRevolts m x) (rid : Rid) (signature : Signature) :
    SameRevolts m (x.take rid signature) :=
  (((h.clearSignatures.modifyOwn _).setPhase _).collect _ _).setIntent _

lemma step (h : SameRevolts m x) (hstep : x.step = some y) : SameRevolts m y := by
  cases makes_of_step hstep with
  | setIntent intent => exact h.setIntent intent
  | catchUp => exact h.dropUnprepared.setIntent _
  | advanceRound => exact h.advanceRound
  | prepare => exact h.prepare

lemma settle (h : SameRevolts m x) (limit : ℕ) : SameRevolts m (settle limit x) := by
  induction limit generalizing x with
  | zero => exact h.cutOff
  | succ limit ih =>
    unfold Manager.settle
    split
    · exact h
    · rename_i hstep
      exact ih (h.step hstep)

lemma advance (h : SameRevolts m x) (heights : ℕ) : SameRevolts m (advance heights x) := by
  induction heights generalizing x with
  | zero => exact h
  | succ heights ih => exact ih (h.climb.settle _)

end SameRevolts

/-! ### One input -/

lemma vote?_eq_none (h : (m.respond input).2 = false) : m.vote? input = none := by
  cases input with
  | status node s => simp [vote?, h]
  | _ => rfl

/-- A status that is no vote, or repeats the vote that was counted last, is not counted. -/
lemma sameRevolts_hear {i : Fin n} {s : NodeStatus}
    (h : ¬(s.revolting = true ∧ s.height = m.own.height) ∨
      m.revoltSeen.get i = some (s.height, s.round)) : SameRevolts m (m.hear i s) := by
  have hskip : ¬s.revolting = true ∨ s.height ≠ m.own.height ∨
      m.revoltSeen.get i = some (s.height, s.round) := by
    tauto
  have hnote : { m with heardAt := m.heardAt.put i (some m.now) }.noteRevolt i s =
      { m with heardAt := m.heardAt.put i (some m.now) } := if_pos hskip
  unfold hear
  rw [hnote]
  exact ⟨rfl, rfl, rfl⟩

/-- Any other vote is told of, counted and remembered. -/
lemma noteRevolt_vote {i : Fin n} {s : NodeStatus} (hrevolting : s.revolting = true)
    (hheight : s.height = m.own.height) (hnew : m.revoltSeen.get i ≠ some (s.height, s.round)) :
    (m.noteRevolt i s).revoltSeen = m.revoltSeen.put i (some (s.height, s.round)) ∧
      (m.noteRevolt i s).revoltsAgainst = m.revoltsAgainst.put (m.primaryFor s.height s.round)
        (m.revoltsAgainst.get (m.primaryFor s.height s.round) + 1) ∧
      (m.noteRevolt i s).revoltEvents =
        m.voteEvent ⟨i, s.height, s.round⟩ :: m.revoltEvents := by
  have hcount : ¬(¬s.revolting = true ∨ s.height ≠ m.own.height ∨
      m.revoltSeen.get i = some (s.height, s.round)) := by
    tauto
  unfold noteRevolt
  rw [if_neg hcount]
  exact ⟨rfl, rfl, rfl⟩

lemma hear_vote {i : Fin n} {s : NodeStatus} (hrevolting : s.revolting = true)
    (hheight : s.height = m.own.height) (hnew : m.revoltSeen.get i ≠ some (s.height, s.round)) :
    (m.hear i s).revoltSeen = m.revoltSeen.put i (some (s.height, s.round)) ∧
      (m.hear i s).revoltsAgainst = m.revoltsAgainst.put (m.primaryFor s.height s.round)
        (m.revoltsAgainst.get (m.primaryFor s.height s.round) + 1) ∧
      (m.hear i s).revoltEvents = m.voteEvent ⟨i, s.height, s.round⟩ :: m.revoltEvents :=
  noteRevolt_vote (m := { m with heardAt := m.heardAt.put i (some m.now) }) hrevolting hheight hnew

/-- An input is a vote that is heard first of all, or it leaves the counts alone. -/
lemma respond_revolts (m : Manager n) (input : Input) :
    (m.vote? input = none ∧ SameRevolts m (m.respond input).1) ∨
      ∃ (i : Fin n) (s : NodeStatus), m.vote? input = some ⟨i, s.height, s.round⟩ ∧
        s.revolting = true ∧ s.height = m.own.height ∧
        SameRevolts (m.hear i s) (m.respond input).1 := by
  have hself := SameRevolts.refl m
  -- The status of a peer counts when it is heard, and the recompute that follows has no part in it.
  cases ho : m.opening input with
  | some x =>
    rw [(respond_opening ho).2]
    cases opens_of_opening ho with
    | hear i s peer fresher =>
      have happlied : (m.respond (.status i s)).2 = true := by rw [(respond_opening ho).2]
      by_cases hvote : s.revolting = true ∧ s.height = m.own.height
      · refine .inr ⟨i, s, ?_, hvote.1, hvote.2, (SameRevolts.refl _).settle _⟩
        simp [vote?, happlied, hvote.1, hvote.2]
      · refine .inl ⟨?_, (sameRevolts_hear (.inl hvote)).settle _⟩
        simp only [vote?, happlied, true_and, if_neg hvote]
    | heightAdvance => exact .inl ⟨rfl, hself.climb.settle _⟩
    | committed => exact .inl ⟨rfl, hself.climb.settle _⟩
    | received rid signature => exact .inl ⟨rfl, (hself.take rid signature).settle _⟩
    | built rid signature => exact .inl ⟨rfl, (hself.take rid signature).settle _⟩
    | collect i rid signature => exact .inl ⟨rfl, (hself.collect i signature).settle _⟩
    | rebel => exact .inl ⟨rfl, (hself.modifyOwn _).settle _⟩
    | look => exact .inl ⟨rfl, hself.settle _⟩
  | none =>
    by_cases hf : ∃ committed, input = .fastForward committed
    · obtain ⟨committed, rfl⟩ := hf
      refine .inl ⟨rfl, ?_⟩
      simp only [respond, fastForward]
      split
      · exact hself.record rfl
      · exact hself.advance _
    · left
      rcases respond_unopened ho fun c hc => hf ⟨c, hc⟩ with ⟨-, he⟩ | ⟨cause, he⟩ | ⟨now, rfl⟩
      · exact ⟨vote?_eq_none (by rw [he]), by rwa [he]⟩
      · exact ⟨vote?_eq_none (by rw [he]), by rw [he]; exact hself.record rfl⟩
      · exact ⟨rfl, rfl, rfl, rfl⟩

/-! ### Runs -/

/-- The counts after the votes `cast`: the last vote of each peer is remembered, what was told of
its votes leaves out the repetitions in a row, and the counters count what was told. -/
structure Recorded (m : Manager n) (cast : List RevoltVote) : Prop where
  seen : ∀ i : Fin n,
    m.revoltSeen.get i = ((cast.filter (·.node = i.val)).getLast?).map RevoltVote.slot
  told : ∀ node, m.observed.filter (·.node = node) =
    (cast.filter (·.node = node)).destutter (· ≠ ·)
  against : ∀ p, m.revoltsAgainst.get p =
    m.observed.countP fun v => m.primaryFor v.height v.round = p
  events : m.revoltEvents = (m.observed.map m.voteEvent).reverse

lemma recorded_start (config : Config) (me : Fin n) (height wallMillis : ℕ) :
    (start config me height wallMillis).Recorded [] := by
  have hsame := (SameRevolts.refl (blank config me height
    (Word.toSigned (wallMillis - config.serialEpoch)))).settle config.maxIterations
  refine ⟨fun i => ?_, fun node => rfl, fun p => ?_, rfl⟩
  · have hseen : (start config me height wallMillis).revoltSeen = Vector.replicate n none :=
      hsame.seen
    simp [hseen]
  · have hagainst : (start config me height wallMillis).revoltsAgainst = Vector.replicate n 0 :=
      hsame.against
    rw [hagainst, Table.get_replicate]
    rfl

lemma Recorded.congr (h : m.Recorded cast) (hsame : SameRevolts m x) : x.Recorded cast := by
  have hobserved : x.observed = m.observed := by
    unfold observed
    rw [hsame.told]
  refine ⟨fun i => ?_, fun node => ?_, fun p => ?_, ?_⟩
  · rw [hsame.seen, h.seen]
  · rw [hobserved, h.told]
  · rw [hsame.against, hobserved, h.against]
    rfl
  · rw [hsame.told, hobserved, h.events]
    rfl

lemma filter_concat_self {v : RevoltVote} :
    (cast ++ [v]).filter (·.node = v.node) = cast.filter (·.node = v.node) ++ [v] := by
  simp

lemma filter_concat_of_ne {v : RevoltVote} {node : ℕ} (h : v.node ≠ node) :
    (cast ++ [v]).filter (·.node = node) = cast.filter (·.node = node) := by
  simp [h]

/-- A vote that repeats the peer's last one changes nothing. -/
lemma Recorded.repeated (h : m.Recorded cast) {i : Fin n} {s : NodeStatus}
    (hseen : m.revoltSeen.get i = some (s.height, s.round)) :
    (m.hear i s).Recorded (cast ++ [⟨i, s.height, s.round⟩]) := by
  have hm := h.congr (sameRevolts_hear (.inr hseen))
  have hlast : (cast.filter (·.node = i.val)).getLast? = some ⟨i, s.height, s.round⟩ := by
    rw [h.seen] at hseen
    obtain ⟨v, hv, hslot⟩ := Option.map_eq_some_iff.1 hseen
    have hnode := (List.mem_filter.1 (List.mem_of_getLast? hv)).2
    rw [hv, RevoltVote.eq_of_slot (w := ⟨i, s.height, s.round⟩) (of_decide_eq_true hnode) hslot]
  refine ⟨fun j => ?_, fun node => ?_, hm.against, hm.events⟩
  · rw [hm.seen]
    by_cases hj : i.val = j.val
    · rw [← hj, filter_concat_self (v := ⟨i, s.height, s.round⟩), List.getLast?_concat, hlast]
    · rw [filter_concat_of_ne hj]
  · rw [hm.told]
    by_cases hnode : i.val = node
    · rw [← hnode, filter_concat_self (v := ⟨i, s.height, s.round⟩), destutter_concat, if_pos hlast]
    · rw [filter_concat_of_ne hnode]

/-- Any other vote is counted. -/
lemma Recorded.counted (h : m.Recorded cast) {i : Fin n} {s : NodeStatus}
    (hrevolting : s.revolting = true) (hheight : s.height = m.own.height)
    (hnew : m.revoltSeen.get i ≠ some (s.height, s.round)) :
    (m.hear i s).Recorded (cast ++ [⟨i, s.height, s.round⟩]) := by
  obtain ⟨hseen, hagainst, hevents⟩ := hear_vote hrevolting hheight hnew
  have hobserved : (m.hear i s).observed = m.observed ++ [⟨i, s.height, s.round⟩] := by
    unfold observed
    rw [hevents]
    simp [voteEvent, Event.vote?]
  have hlast : (cast.filter (·.node = i.val)).getLast? ≠ some ⟨i, s.height, s.round⟩ := by
    intro hlast
    rw [h.seen, hlast] at hnew
    exact hnew rfl
  refine ⟨fun j => ?_, fun node => ?_, fun p => ?_, ?_⟩
  · rw [hseen, Table.get_put]
    by_cases hj : i = j
    · rw [if_pos hj, ← hj, filter_concat_self (v := ⟨i, s.height, s.round⟩), List.getLast?_concat]
      rfl
    · rw [if_neg hj, h.seen, filter_concat_of_ne fun hval => hj (Fin.ext hval)]
  · rw [hobserved]
    by_cases hnode : i.val = node
    · rw [← hnode, filter_concat_self (v := ⟨i, s.height, s.round⟩),
        filter_concat_self (v := ⟨i, s.height, s.round⟩), destutter_concat, if_neg hlast, h.told]
    · rw [filter_concat_of_ne hnode, filter_concat_of_ne hnode, h.told]
  · have hprimary : (m.hear i s).primaryFor = m.primaryFor := rfl
    rw [hobserved, hprimary, List.countP_append, List.countP_singleton, hagainst, Table.get_put,
      h.against, h.against]
    by_cases hp : m.primaryFor s.height s.round = p
    · simp [hp]
    · simp [hp]
  · have hevent : (m.hear i s).voteEvent = m.voteEvent := rfl
    rw [hevents, hobserved, hevent, h.events]
    simp

/-- What an input has to say about revolts is recorded. -/
lemma Recorded.respond (h : m.Recorded cast) (input : Input) :
    (m.respond input).1.Recorded (cast ++ (m.vote? input).toList) := by
  rcases respond_revolts m input with ⟨hno, hsame⟩ | ⟨i, s, hvote, hrevolting, hheight, hsame⟩
  · rw [hno, Option.toList_none, List.append_nil]
    exact h.congr hsame
  · rw [hvote, Option.toList_some]
    by_cases hseen : m.revoltSeen.get i = some (s.height, s.round)
    · exact (h.repeated hseen).congr hsame
    · exact (h.counted hrevolting hheight hseen).congr hsame

lemma Recorded.run (h : m.Recorded cast) {inputs : List Input} (hrun : m.run inputs = .ok x) :
    x.Recorded (cast ++ m.votes inputs) := by
  -- The votes so far go along: a vote is compared with the last one of its peer.
  induction inputs generalizing m cast with
  | nil =>
    cases hrun
    rwa [votes, List.append_nil]
  | cons input inputs ih =>
    rw [votes, ← List.append_assoc]
    exact ih (h.respond input) (run_cons_eq_ok.1 hrun).2

/-! ### What the counts amount to -/

/-- The votes against the primary `p`, each counted once. -/
def votesAgainst (m : Manager n) (cast : List RevoltVote) (p : Fin n) : Finset RevoltVote :=
  cast.toFinset.filter fun v => m.primaryFor v.height v.round = p

lemma revoltCount_eq_get (m : Manager n) (p : Fin n) :
    m.revoltCount p = m.revoltsAgainst.get p := by
  simp [revoltCount, Table.get_eq_getElem]

lemma mem_filter_node {v : RevoltVote} {l : List RevoltVote} :
    v ∈ l.filter (·.node = v.node) ↔ v ∈ l := by
  simp

lemma Recorded.mem_observed (h : m.Recorded cast) {v : RevoltVote} :
    v ∈ m.observed ↔ v ∈ cast := by
  rw [← mem_filter_node, h.told, mem_destutter_ne, mem_filter_node]

lemma Recorded.votesAgainst_eq (h : m.Recorded cast) (p : Fin n) :
    m.votesAgainst cast p =
      (m.observed.filter fun v => m.primaryFor v.height v.round = p).toFinset := by
  ext v
  simp [votesAgainst, h.mem_observed]

/-- No vote goes uncounted. -/
lemma Recorded.card_votesAgainst_le (h : m.Recorded cast) (p : Fin n) :
    (m.votesAgainst cast p).card ≤ m.revoltCount p := by
  rw [revoltCount_eq_get, h.against, List.countP_eq_length_filter, h.votesAgainst_eq]
  exact List.toFinset_card_le _

/-- A peer that never votes again for a round that it has left is told of once for each vote. -/
lemma Recorded.nodup_observed (h : m.Recorded cast)
    (hsteady : ∀ v w, v.node = w.node → [v, w, v].Sublist cast → w = v) : m.observed.Nodup := by
  rw [List.nodup_iff_count_le_one]
  intro v
  have hpeer : (m.observed.filter (·.node = v.node)).Nodup := by
    rw [h.told]
    apply nodup_destutter_ne
    intro a b hab
    have hmem : ∀ c ∈ [a, b, a], c.node = v.node := fun c hc =>
      of_decide_eq_true (List.mem_filter.1 (hab.subset hc)).2
    refine hsteady a b ?_ (hab.trans List.filter_sublist)
    rw [hmem a (by simp), hmem b (by simp)]
  rw [← List.count_filter (p := (·.node = v.node)) (by simp)]
  exact List.nodup_iff_count_le_one.1 hpeer v

lemma Recorded.revoltCount_eq_card (h : m.Recorded cast) (hnodup : m.observed.Nodup) (p : Fin n) :
    m.revoltCount p = (m.votesAgainst cast p).card := by
  rw [revoltCount_eq_get, h.against, List.countP_eq_length_filter, h.votesAgainst_eq,
    List.toFinset_card_of_nodup (hnodup.filter _)]

lemma voteEvent_injective (m : Manager n) : Function.Injective m.voteEvent := by
  intro v w hvw
  cases v
  cases w
  simp only [voteEvent, Event.revoltObserved.injEq] at hvw
  simp [hvw]

/-- The events that tell of a vote. -/
lemma Recorded.count_journal (h : m.Recorded cast) (v : RevoltVote) :
    m.journal.count (m.voteEvent v) = m.observed.count v := by
  have hkept : m.journal.count (m.voteEvent v) = m.revoltEvents.count (m.voteEvent v) :=
    (List.count_filter rfl).symm
  rw [hkept, h.events, List.count_reverse, List.count_map_of_injective _ _ m.voteEvent_injective]

/-- After any run: what was told of a node's votes is the list of its votes without repetitions in a
row, the counter of a validator is the number of votes told of while it was primary, and no vote
is left out. If no node votes for a round again after another one, then the counter of every
validator is the number of different votes against it, and each of them was told of exactly once. -/
theorem revolts_counted (config : Config) (me : Fin n) (height wallMillis : ℕ)
    (inputs : List Input) (hrun : (start config me height wallMillis).run inputs = .ok x) :
    let cast := (start config me height wallMillis).votes inputs
    (∀ node, x.observed.filter (·.node = node) =
        (cast.filter (·.node = node)).destutter (· ≠ ·)) ∧
      (∀ p : Fin n,
        x.revoltCount p = x.observed.countP (fun v => x.primaryFor v.height v.round = p) ∧
        (x.votesAgainst cast p).card ≤ x.revoltCount p) ∧
      ((∀ v w, v.node = w.node → [v, w, v].Sublist cast → w = v) →
        (∀ p : Fin n, x.revoltCount p = (x.votesAgainst cast p).card) ∧
        ∀ v ∈ cast, x.journal.count (x.voteEvent v) = 1) := by
  intro cast
  have h : x.Recorded cast := (recorded_start config me height wallMillis).run hrun
  refine ⟨h.told, ?_, ?_⟩
  · intro p
    exact ⟨(revoltCount_eq_get x p).trans (h.against p), h.card_votesAgainst_le p⟩
  · intro hsteady
    have hnodup := h.nodup_observed hsteady
    refine ⟨h.revoltCount_eq_card hnodup, ?_⟩
    intro v hv
    rw [h.count_journal]
    exact List.count_eq_one_of_mem hnodup (h.mem_observed.2 hv)

/-- A status of node 2, which revolts at height 5. -/
def revoltingAt (round : ℕ) (serial : ℤ) : Input :=
  .status 2 ⟨5, serial, round, .waitBlock, none, true⟩

/-- A node that revolts twice in one round and then in the next has cast one vote in each. -/
theorem revolts_counted_next_round :
    let inputs := [revoltingAt 0 1, revoltingAt 0 2, revoltingAt 1 3]
    let m := start {} (0 : Fin 4) 5 0
    ∃ x, m.run inputs = .ok x ∧
      (∀ v w, v.node = w.node → [v, w, v].Sublist (m.votes inputs) → w = v) ∧
      x.revoltCount 1 = 1 ∧ x.revoltCount 2 = 1 ∧
      ∀ v ∈ m.votes inputs, x.journal.count (x.voteEvent v) = 1 := by
  intro inputs m
  have hview : (m.run inputs).toOption.map (fun x =>
      ((x.votesAgainst (m.votes inputs) 1).card, (x.votesAgainst (m.votes inputs) 2).card)) =
      some (1, 1) := by
    decide +kernel
  have hvotes : m.votes inputs = [⟨2, 5, 0⟩, ⟨2, 5, 0⟩, ⟨2, 5, 1⟩] := by decide +kernel
  have hsteady : ∀ v w, v.node = w.node → [v, w, v].Sublist (m.votes inputs) → w = v := by
    intro v w _ hback
    rw [hvotes] at hback
    have hall := hback.eq_of_length rfl
    simp only [List.cons.injEq] at hall
    rw [hall.1, hall.2.1]
  obtain ⟨x, hx, hseen⟩ := Option.map_eq_some_iff.1 hview
  simp only [Prod.mk.injEq] at hseen
  have hrun := ok_of_toOption hx
  obtain ⟨hcount, hjournal⟩ := (revolts_counted {} (0 : Fin 4) 5 0 inputs hrun).2.2 hsteady
  exact ⟨x, hrun, hsteady, (hcount 1).trans hseen.1, (hcount 2).trans hseen.2, hjournal⟩

/-- A node that goes back to the round it revolted in first is counted there again. -/
theorem revolt_counted_again :
    let inputs := [revoltingAt 0 1, revoltingAt 1 2, revoltingAt 0 3]
    let m := start {} (0 : Fin 4) 5 0
    ∃ x, m.run inputs = .ok x ∧ x.revoltCount 1 = 2 ∧
      (x.votesAgainst (m.votes inputs) 1).card = 1 ∧
      x.journal.count (x.voteEvent ⟨2, 5, 0⟩) = 2 := by
  intro inputs m
  have hview : (m.run inputs).toOption.map (fun x => (x.revoltCount 1,
      (x.votesAgainst (m.votes inputs) 1).card, x.journal.count (x.voteEvent ⟨2, 5, 0⟩))) =
      some (2, 1, 2) := by
    decide +kernel
  obtain ⟨x, hx, hseen⟩ := Option.map_eq_some_iff.1 hview
  simp only [Prod.mk.injEq] at hseen
  exact ⟨x, ok_of_toOption hx, hseen⟩

end Manager

end Conclave

import Conclave.Proofs.FastSyncTurns
import Conclave.Proofs.IntentOfRecords

/-!
# Whom a validator asks

An intent to fetch stands on the records: there is a peer whose record names the block, or one that
is above the height, and the nodes that can give signatures are listed. The executor hands on the
intent of its manager as it is, so a tick that follows the intent finds someone to ask among the
peers, whatever the random source picks. It asks when the intent is another one than that of the
last inquiry, or when that was long enough ago.
-/

namespace Conclave

variable {n : ℕ}

/-! ### What an intent to fetch stands on -/

/-- Whether the intent takes asking peers. -/
def Intent.isFetch : Intent → Bool
  | .fetchBlockAtHeight _ | .fetchUnfinishedBlock _ | .fetchCommitSignatures _ _ => true
  | _ => false

namespace Manager

variable {m : Manager n} {rid : Rid} {nodes : List ℕ}

/-- What peers may be asked for the sake of an intent: one peer that is recorded to have the block
at the own height, one that is recorded above the height, or every node that is listed. -/
inductive Asks (m : Manager n) : Intent → List (ℕ × Message) → Prop
  | unfinished (i : Fin n) (rid : Rid) (peer : i ≠ m.me)
      (level : (m.statuses.get i).height = m.own.height)
      (names : (m.statuses.get i).rid = some rid) :
      Asks m (.fetchUnfinishedBlock rid) [(i.val, .getUnfinishedBlock rid)]
  | height (i : Fin n) (height : ℕ) (peer : i ≠ m.me)
      (above : height < (m.statuses.get i).height) :
      Asks m (.fetchBlockAtHeight height) [(i.val, .getBlockAtHeight height)]
  | signatures (rid : Rid) (nodes : List ℕ) (nonempty : nodes ≠ [])
      (ascending : nodes.Pairwise (· < ·)) (peers : ∀ k ∈ nodes, IsPeer m.me k) :
      Asks m (.fetchCommitSignatures rid nodes)
        (nodes.map fun k => (k, .getBlockSignature rid))

/-- Only peers are asked. -/
lemma Asks.peer {intent : Intent} {asked : List (ℕ × Message)} (h : m.Asks intent asked) :
    ∀ mail ∈ asked, IsPeer m.me mail.1 := by
  intro mail hmail
  cases h with
  | unfinished i rid peer =>
    rw [List.mem_singleton.1 hmail]
    exact ⟨i.isLt, fun heq => peer (Fin.ext heq)⟩
  | height i height peer =>
    rw [List.mem_singleton.1 hmail]
    exact ⟨i.isLt, fun heq => peer (Fin.ext heq)⟩
  | signatures rid nodes _ _ peers =>
    obtain ⟨k, hk, rfl⟩ := List.mem_map.1 hmail
    exact peers k hk

lemma Coherent.waits_of_fetchUnfinished (h : m.Coherent)
    (hi : m.intent = .fetchUnfinishedBlock rid) : m.own.phase = .waitBlock := by
  cases hp : m.own.phase with
  | waitBlock => rfl
  | haveBlock =>
    have hidle := h.intent_of_having hp
    simp [hi] at hidle
  | prepared =>
    rcases h.intent_of_prepared hp with h | ⟨h, -⟩ | ⟨rid, nodes, -, h⟩ <;> simp [hi] at h

lemma Coherent.prepared_of_fetchCommitSignatures (h : m.Coherent)
    (hi : m.intent = .fetchCommitSignatures rid nodes) : m.own.phase = .prepared := by
  cases hp : m.own.phase with
  | waitBlock =>
    rcases h.intent_of_waiting hp with h | h | h | ⟨rid, h⟩ <;> simp [hi] at h
  | haveBlock =>
    have hidle := h.intent_of_having hp
    simp [hi] at hidle
  | prepared => rfl

namespace Ready

/-- A block is fetched unfinished when the record of a peer names it. -/
lemma exists_holder (h : m.Ready) (hi : m.intent = .fetchUnfinishedBlock rid) :
    ∃ i, i ≠ m.me ∧ (m.statuses.get i).height = m.own.height ∧
      (m.statuses.get i).rid = some rid := by
  have hp := h.coherent.waits_of_fetchUnfinished hi
  have hb : m.behind = false := by
    by_contra hb
    rw [h.settled.catchingUp (by simp [hp]) (by simpa using hb)] at hi
    cases hi
  rw [h.settled.waiting hp hb] at hi
  exact waitingIntent_eq_fetch hi

/-- A block is fetched at a height when a peer is recorded above it. -/
lemma exists_above (h : m.Ready) {height : ℕ} (hi : m.intent = .fetchBlockAtHeight height) :
    ∃ i, i ≠ m.me ∧ height < (m.statuses.get i).height := by
  obtain ⟨hp, rfl⟩ := h.coherent.catches_up hi
  have hb : m.behind = true := by
    by_contra hb
    rw [h.settled.waiting hp (by simpa using hb)] at hi
    rcases m.waitingIntent_cases with hw | hw | ⟨rid, hw⟩ <;> simp [hw] at hi
  obtain ⟨i, habove⟩ := (behind_iff.1 hb).2
  refine ⟨i, ?_, habove⟩
  rintro rfl
  exact absurd habove (lt_irrefl _)

/-- Signatures are fetched from peers, in order and each listed once. -/
lemma sources_spec (h : m.Ready) (hi : m.intent = .fetchCommitSignatures rid nodes) :
    nodes ≠ [] ∧ nodes.Pairwise (· < ·) ∧ ∀ k ∈ nodes, IsPeer m.me k := by
  have hp := h.coherent.prepared_of_fetchCommitSignatures hi
  obtain ⟨rid', hrid⟩ := h.coherent.exists_rid (by simp [hp])
  have hprepared := (h.settled.prepared hp (by simp [hi])).2 rid' hrid
  rw [hi] at hprepared
  obtain ⟨-, hnodes⟩ := preparedIntent_eq_fetch hprepared.symm
  have hne : nodes ≠ [] := by
    intro hnil
    rw [preparedIntent_eq, ← hnodes, if_pos hnil] at hprepared
    cases hprepared
  refine ⟨hne, hnodes ▸ pairwise_signatureSources m rid', ?_⟩
  intro k hk
  rw [hnodes] at hk
  obtain ⟨i, rfl, -⟩ := mem_signatureSources.1 hk
  refine ⟨i.isLt, ?_⟩
  intro hme
  rw [hme] at hk
  exact h.own_not_mem_sources hp rid' hk

end Ready

end Manager

/-! ### The executor's intent -/

namespace Executor

variable {x y : Executor n} {heard : ℕ → Rid → Signature → Prop} {fast : Prop}

lemma Beat.ready (h : Beat heard x y) (hx : x.manager.Ready) : y.manager.Ready := by
  cases h with
  | tell input => exact hx.respond input
  | conclude _ told =>
    rcases told with rfl | ⟨input, -, rfl⟩
    · exact hx
    · exact hx.respond input
  | _ => exact hx

lemma Pulses.ready (h : Pulses heard fast x y) (hx : x.manager.Ready) : y.manager.Ready :=
  h.invariant (P := fun z => z.manager.Ready)
    (fun _ _ hpulse hz => hpulse.beats.invariant (fun _ _ hbeat => hbeat.ready) hz) hx

lemma Pulses.orderly (h : Pulses heard fast x y) (hx : x.Orderly) : y.Orderly :=
  h.invariant (fun _ _ hpulse hz => hz.pulse hpulse) hx

/-- What an idle executor does next is its own affair, or what its manager asks for. -/
lemma Turns.intent {now : Duration} (h : Turns x now y) :
    y.intent = .doNothing ∨ y.intent = y.manager.intent := by
  cases h with
  | follow => exact .inr rfl
  | _ => exact .inl rfl

lemma intent_update (x : Executor n) (hquiet : x.busy = true → x.intent = .doNothing)
    (now : Duration) :
    (x.update now).intent = .doNothing ∨ (x.update now).intent = (x.update now).manager.intent := by
  cases hbusy : x.busy with
  | true =>
    rw [update_of_busy hbusy]
    exact .inl (hquiet hbusy)
  | false => exact (turns_update hbusy now).intent

/-! ### Who was asked -/

end Executor

/-- A message to one addressee. -/
def Effect.asked? : Effect → Option (ℕ × Message)
  | .send (some receiver) message => some (receiver, message)
  | _ => none

namespace Executor

variable {x y : Executor n}

/-- What was just sent to single addressees, oldest first. -/
def asked (x : Executor n) : List (ℕ × Message) := x.effects.reverse.filterMap Effect.asked?

lemma asked_emit (x : Executor n) (e : Effect) :
    (x.emit e).asked = x.asked ++ e.asked?.toList := by
  unfold asked emit
  rw [List.reverse_cons, List.filterMap_append]
  cases he : e.asked? <;> simp [he]

lemma asked_emit_of_none (x : Executor n) {e : Effect} (he : e.asked? = none) :
    (x.emit e).asked = x.asked := by
  rw [asked_emit, he]
  exact List.append_nil _

/-- Nobody is asked by themselves. -/
def Scope.silent : Scope :=
  .without Effect.asked? fun e h => by
    cases e with
    | send => cases h
    | note | count => rfl

lemma Chores.asked (h : Chores .silent x y) : y.asked = x.asked :=
  h.filterMap_effects fun _ he => he

end Executor

namespace Validator

variable {v v' : Validator n} {intent : Intent} {now : Duration}

lemma announce_spec (v : Validator n) (now : Duration) :
    SameInquiry v (v.announce now) ∧ (v.announce now).asked = v.asked ∧
      (v.announce now).manager = v.manager := by
  unfold announce
  split
  · exact ⟨⟨rfl, rfl⟩, Executor.asked_emit_of_none _ rfl, rfl⟩
  · exact ⟨⟨rfl, rfl⟩, rfl, rfl⟩

/-! ### A request -/

lemma exists_choose {α : Type} {xs : List α} (hne : xs ≠ []) (g : Random) :
    ∃ a ∈ xs, (Random.choose xs g).1 = some a := by
  have hempty : xs.isEmpty = false := by simpa using hne
  have hlt : (Random.below xs.length 256 g).1 < xs.length :=
    Random.below_lt (List.length_pos_of_ne_nil hne) 256 g
  refine ⟨xs[(Random.below xs.length 256 g).1], List.getElem_mem hlt, ?_⟩
  simp [Random.choose, hempty, hlt]

/-- From `v` to `w` the messages `l` went out to single addressees, and nothing else has changed
that matters to the next inquiry. -/
structure Sends (v : Validator n) (l : List (ℕ × Message)) (w : Validator n) : Prop where
  asked : w.asked = v.asked ++ l
  same : SameInquiry v w
  manager : w.manager = v.manager

lemma sends_nothing (v : Validator n) (random : Random) : v.Sends [] { v with random } :=
  ⟨(List.append_nil _).symm, ⟨rfl, rfl⟩, rfl⟩

lemma sends_noted (v : Validator n) (entry : Note) (receiver : ℕ) (message : Message) :
    v.Sends [(receiver, message)] ((v.note entry).send receiver message) where
  asked := by
    have hnote : (v.note entry).asked = v.asked := Executor.asked_emit_of_none _ rfl
    rw [← hnote]
    exact Executor.asked_emit _ _
  same := ⟨rfl, rfl⟩
  manager := rfl

/-- One peer that satisfies the condition is asked, if there is one. -/
lemma askOne_spec (v : Validator n) (p : NodeStatus → Bool) (message : Message) (entry : Note) :
    ∃ l, v.Sends l (v.askOne p message entry).2 ∧
      ((v.askOne p message entry).1 = true ↔ l ≠ []) ∧
      ((∃ i, i ≠ v.manager.me ∧ p (v.manager.statuses.get i) = true) →
        ∃ i : Fin n, i ≠ v.manager.me ∧ p (v.manager.statuses.get i) = true ∧
          l = [(i.val, message)]) := by
  have hmem : ∀ k, k ∈ ((List.finRange n).filter fun i =>
      i ≠ v.manager.me ∧ p (v.manager.statuses.get i)).map Fin.val ↔
        ∃ i : Fin n, i.val = k ∧ i ≠ v.manager.me ∧ p (v.manager.statuses.get i) = true := by
    intro k
    simp [and_comm]
  unfold askOne randomPeer
  simp only
  generalize ((List.finRange n).filter fun i =>
    i ≠ v.manager.me ∧ p (v.manager.statuses.get i)).map Fin.val = candidates at hmem ⊢
  by_cases hnone : candidates = []
  · subst hnone
    refine ⟨[], v.sends_nothing v.random, by simp [Random.choose], ?_⟩
    rintro ⟨i, hi, hp⟩
    exact absurd ((hmem i).2 ⟨i, rfl, hi, hp⟩) List.not_mem_nil
  · obtain ⟨k, hk, hchosen⟩ := exists_choose hnone v.random
    obtain ⟨i, rfl, hi, hp⟩ := (hmem k).1 hk
    rw [hchosen]
    have hsends := sends_noted { v with random := (v.random.choose candidates).2 } entry i message
    exact ⟨_, ⟨hsends.asked, ⟨hsends.same.lastRequest, hsends.same.sync⟩, hsends.manager⟩,
      by simp, fun _ => ⟨i, hi, hp, rfl⟩⟩

lemma sends_askAll (v : Validator n) (rid : Rid) (nodes : List ℕ) :
    v.Sends (nodes.map fun k => (k, .getBlockSignature rid))
      (nodes.foldl (fun v node => v.send node (.getBlockSignature rid)) v) := by
  induction nodes generalizing v with
  | nil => exact v.sends_nothing v.random
  | cons node nodes ih =>
    have hrest := ih (v.send node (.getBlockSignature rid))
    refine ⟨?_, ⟨hrest.same.lastRequest, hrest.same.sync⟩, hrest.manager⟩
    have hsent : (v.send node (.getBlockSignature rid)).asked =
        v.asked ++ [(node, .getBlockSignature rid)] := Executor.asked_emit _ _
    rw [List.foldl_cons, hrest.asked, hsent, List.append_assoc]
    rfl

/-- The answer of `ask` tells whether anyone is asked. A manager at rest has somebody to be asked
for the sake of its own intent. -/
lemma ask_spec (v : Validator n) (intent : Intent) :
    ∃ l, v.Sends l (v.ask intent).2 ∧ ((v.ask intent).1 = true ↔ l ≠ []) ∧
      (intent.isFetch = false → l = []) ∧
      (v.manager.Ready → v.manager.intent = intent → intent.isFetch = true →
        v.manager.Asks intent l) := by
  cases intent with
  | fetchUnfinishedBlock rid =>
    obtain ⟨l, hsends, hanswer, hsome⟩ := v.askOne_spec
      (fun s => s.height = v.manager.own.height ∧ s.rid = some rid) (.getUnfinishedBlock rid)
      .fetchingUnfinished
    refine ⟨l, hsends, hanswer, nofun, ?_⟩
    intro hready hintent _
    obtain ⟨i, hi, hp⟩ := hready.exists_holder hintent
    obtain ⟨j, hj, hq, rfl⟩ := hsome ⟨i, hi, by simpa using hp⟩
    obtain ⟨hlevel, hnames⟩ := of_decide_eq_true hq
    exact .unfinished j rid hj hlevel hnames
  | fetchBlockAtHeight height =>
    obtain ⟨l, hsends, hanswer, hsome⟩ := v.askOne_spec (fun s => s.height > height)
      (.getBlockAtHeight height) .fetchingHeight
    refine ⟨l, hsends, hanswer, nofun, ?_⟩
    intro hready hintent _
    obtain ⟨i, hi, hp⟩ := hready.exists_above hintent
    obtain ⟨j, hj, hq, rfl⟩ := hsome ⟨i, hi, by simpa using hp⟩
    exact .height j height hj (of_decide_eq_true hq)
  | fetchCommitSignatures rid nodes =>
    refine ⟨_, v.sends_askAll rid nodes, by simp [ask], nofun, ?_⟩
    intro hready hintent _
    obtain ⟨hne, hascending, hpeers⟩ := hready.sources_spec hintent
    exact .signatures rid nodes hne hascending hpeers
  | doNothing | commitBlock | buildBlock =>
    exact ⟨[], v.sends_nothing v.random, by simp [ask], fun _ => rfl, fun _ _ h => by cases h⟩

/-- From `v` to `w` the messages `l` went out for the sake of the intent, none unless a request is
due; if there are any, the request is remembered. -/
structure Inquires (v : Validator n) (intent : Intent) (now : Duration) (l : List (ℕ × Message))
    (w : Validator n) : Prop where
  asked : w.asked = v.asked ++ l
  sync : w.sync = v.sync
  lastRequest : w.lastRequest = if l = [] then v.lastRequest else some (intent, now)
  quiet : v.requestDue intent now = false ∨ intent.isFetch = false → l = []

/-- A request that is due goes to somebody or to nobody, and is remembered in the first case. -/
lemma request_spec (v : Validator n) (intent : Intent) (now : Duration) :
    ∃ l, v.Inquires intent now l (v.request intent now) ∧
      (v.request intent now).manager = v.manager ∧
      (v.requestDue intent now = true → v.manager.Ready → v.manager.intent = intent →
        intent.isFetch = true → v.manager.Asks intent l) := by
  unfold request
  by_cases hdue : v.requestDue intent now = true
  · rw [if_pos hdue]
    obtain ⟨l, hsends, hanswer, hother, hasks⟩ := v.ask_spec intent
    have hquiet : v.requestDue intent now = false ∨ intent.isFetch = false → l = [] := by
      intro h
      rw [hdue] at h
      exact hother (h.resolve_left (by simp))
    refine ⟨l, ?_⟩
    rcases hask : v.ask intent with ⟨answer, w⟩
    rw [hask] at hsends hanswer
    simp only at hsends hanswer ⊢
    cases answer with
    | true =>
      have hlast : some (intent, now) = if l = [] then v.lastRequest else some (intent, now) := by
        rw [if_neg (hanswer.1 rfl)]
      exact ⟨⟨hsends.asked, hsends.same.sync, hlast, hquiet⟩, hsends.manager, fun _ => hasks⟩
    | false =>
      have hl : l = [] := by
        by_contra hl
        exact absurd (hanswer.2 hl) (by simp)
      have hlast : w.lastRequest = if l = [] then v.lastRequest else some (intent, now) := by
        rw [if_pos hl]
        exact hsends.same.lastRequest
      exact ⟨⟨hsends.asked, hsends.same.sync, hlast, hquiet⟩, hsends.manager, fun _ => hasks⟩
  · rw [if_neg hdue]
    exact ⟨[], ⟨(List.append_nil _).symm, rfl, rfl, fun _ => rfl⟩, rfl, fun h => absurd h hdue⟩

/-! ### A tick -/

lemma requestDue_iff : v.requestDue intent now = true ↔
    ∀ last ∈ v.lastRequest, last.1 ≠ intent ∨ v.sync.requestResend ≤ now.since last.2 := by
  unfold requestDue
  cases v.lastRequest with
  | none => simp
  | some last => simp

lemma SameInquiry.requestDue_eq (h : SameInquiry v v') (intent : Intent) (now : Duration) :
    v'.requestDue intent now = v.requestDue intent now := by
  unfold requestDue
  rw [h.lastRequest, h.sync]

/-- A tick asks when it follows an intent to fetch and a request is due. The intent is the
manager's, for the executor is idle then. -/
lemma tick_spec (h : v.tick now = .ok (v', intent)) :
    ∃ l, v.Inquires intent now l v' ∧
      (v.requestDue intent now = true → v.manager.Ready → v.toExecutor.Orderly →
        intent.isFetch = true → v'.manager.Asks intent l) := by
  obtain ⟨w, hwatch, htick⟩ := Manager.exists_of_bind_eq_ok h
  -- Neither the watch on the primary nor the pump asks anyone, so whether a request is due after
  -- them is settled before.
  have hwatched : ∀ c : Executor.Scope, Works c v w := fun c => works_watchPrimary hwatch
  have hpumped : ∀ c : Executor.Scope, c.acts now →
      Executor.Chores c v.toExecutor (w.act (·.pump now)).toExecutor :=
    fun c hacts => (hwatched c).chores.trans (Executor.chores_pump _ hacts)
  have hsame : SameInquiry v (w.act (·.pump now)) :=
    (hwatched .silent).toSameInquiry.trans ⟨rfl, rfl⟩
  have hasked : (w.act (·.pump now)).asked = v.asked := (hpumped .silent trivial).asked
  have hintent : v.toExecutor.Orderly →
      (w.act (·.pump now)).intent = .doNothing ∨
        (w.act (·.pump now)).intent = (w.act (·.pump now)).manager.intent := by
    intro ho
    have hw := (hwatched (.free (fun _ _ _ => True) True)).chores.pulses.orderly ho
    exact Executor.intent_update (w.toExecutor.setTime now) hw.quiet now
  have hready : v.manager.Ready → (w.act (·.pump now)).manager.Ready := by
    intro hm
    exact (hpumped (.free (fun _ _ _ => True) True) trivial).pulses.ready hm
  generalize w.act (·.pump now) = u at htick hsame hasked hintent hready
  obtain ⟨l, hinquires, hmanager, hasks⟩ := u.request_spec u.intent now
  obtain ⟨hannounced, hsilent, hkept⟩ := announce_spec (u.request u.intent now) now
  cases htick
  refine ⟨l, ⟨?_, ?_, ?_, ?_⟩, ?_⟩
  · rw [hsilent, hinquires.asked, hasked]
  · rw [hannounced.sync, hinquires.sync, hsame.sync]
  · rw [hannounced.lastRequest, hinquires.lastRequest, hsame.lastRequest]
  · rw [← hsame.requestDue_eq]
    exact hinquires.quiet
  · intro hdue hm ho hfetch
    rw [← hsame.requestDue_eq] at hdue
    -- An executor with an operation under way does nothing, which is no intent to fetch.
    have hown : u.manager.intent = u.intent := by
      rcases hintent ho with hnothing | hown
      · rw [hnothing] at hfetch
        cases hfetch
      · exact hown.symm
    rw [hkept, hmanager]
    exact hasks hdue (hready hm) hown hfetch

/-- What a tick asks peers about, if nobody has been asked before. -/
def inquiry? (v : Validator n) (now : Duration) : Option (Intent × Duration) :=
  match v.tick now with
  | .ok (v', intent) => if v'.asked = [] then none else some (intent, now)
  | .error _ => none

lemma lastRequest_tick (hquiet : v.asked = []) (h : v.tick now = .ok (v', intent)) :
    v'.lastRequest = (v.inquiry? now).or v.lastRequest ∧ v'.sync = v.sync := by
  obtain ⟨l, hinquires, -⟩ := tick_spec h
  have hasked : v'.asked = l := by
    rw [hinquires.asked, hquiet]
    rfl
  refine ⟨?_, hinquires.sync⟩
  simp only [inquiry?, h, hasked, hinquires.lastRequest]
  split <;> rfl

end Validator

/-! ### The last inquiry of a run -/

namespace Runner

open Validator (SameInquiry)

variable {r r' : Runner n} {now time rung : Duration} {e : Happening} {es : List Happening}

/-- What peers are asked about in the happening. -/
def inquiry? (r : Runner n) : Happening → Option (Intent × Duration)
  | .tick now => r.toValidator.inquiry? now
  | .turn now _ rung => if r.ticks rung then r.toValidator.inquiry? now else none
  | _ => none

/-- What peers were last asked about in the course of a run. -/
def lastInquiry (r : Runner n) : List Happening → Option (Intent × Duration)
  | [] => none
  | e :: es => ((r.next e).lastInquiry es).or ({ r with effects := [] }.inquiry? e)

lemma lastRequest_turn (hquiet : r.asked = []) {taken : Option (Runner n)}
    (h : r.turn now time rung = .ok taken) :
    (taken.getD r).lastRequest = (r.inquiry? (.turn now time rung)).or r.lastRequest ∧
      (taken.getD r).sync = r.sync := by
  unfold inquiry?
  simp only
  split
  · rename_i ht
    rw [turn_of_ticks ht] at h
    cases hv : r.toValidator.tick now with
    | error fault =>
      rw [hv] at h
      cases h
    | ok t =>
      rw [hv] at h
      cases h
      exact Validator.lastRequest_tick hquiet hv
  · rename_i ht
    cases taken with
    | none => exact ⟨rfl, rfl⟩
    | some r' =>
      have hworks : Works (.free (fun _ _ _ => True) True) r r' :=
        works_turn (fun _ => trivial) (attentive_true r) (fun _ => trivial) (fun _ _ => trivial)
          (by simpa using ht) h
      exact ⟨hworks.lastRequest, hworks.sync⟩

/-- A happening is an inquiry or leaves the last request as it was. -/
lemma lastRequest_step (hquiet : r.asked = []) (h : r.step e = .ok r') :
    r'.lastRequest = (r.inquiry? e).or r.lastRequest ∧ r'.sync = r.sync := by
  cases e with
  | turn now time rung =>
    obtain ⟨taken, hturn, hr⟩ := Manager.exists_of_bind_eq_ok h
    cases hr
    exact lastRequest_turn hquiet hturn
  | tick now =>
    obtain ⟨⟨v, intent⟩, hv, hr⟩ := Manager.exists_of_bind_eq_ok h
    cases hr
    exact Validator.lastRequest_tick hquiet hv
  | message now sender message =>
    have hworks : Works (.free (fun _ _ _ => True) True) r r' :=
      works_handle (fun _ => trivial) (message.heard_true sender) h
    exact ⟨hworks.lastRequest, hworks.sync⟩
  | revolt =>
    obtain ⟨t, -, hr⟩ := Manager.exists_of_bind_eq_ok h
    cases hr
    exact ⟨rfl, rfl⟩
  | finish now index =>
    simp only [step] at h
    split at h
    · cases h
      exact ⟨rfl, rfl⟩
    · obtain ⟨x, -, hr⟩ := Manager.exists_of_bind_eq_ok h
      cases hr
      exact ⟨rfl, rfl⟩
  | _ =>
    cases h
    exact ⟨rfl, rfl⟩

/-- Nobody is asked where there is a fault. -/
lemma inquiry_of_fault {fault : Fault} (h : r.step e = .error fault) : r.inquiry? e = none := by
  cases e with
  | turn now time rung =>
    unfold inquiry? Validator.inquiry?
    simp only
    split
    · rename_i ht
      cases hv : r.toValidator.tick now with
      | error fault => rfl
      | ok t =>
        simp only [step, turn_of_ticks ht, hv] at h
        cases h
    · rfl
  | tick now =>
    unfold inquiry? Validator.inquiry?
    simp only
    cases hv : r.toValidator.tick now with
    | error fault => rfl
    | ok t =>
      simp only [step, hv] at h
      cases h
  | _ => rfl

lemma lastRequest_next (r : Runner n) (e : Happening) :
    (r.next e).lastRequest = ({ r with effects := [] }.inquiry? e).or r.lastRequest ∧
      (r.next e).sync = r.sync := by
  unfold next
  split
  · rename_i r' hstep
    exact lastRequest_step (r := { r with effects := [] }) rfl hstep
  · rename_i fault hstep
    rw [inquiry_of_fault hstep]
    exact ⟨rfl, rfl⟩

/-- The last request that a validator remembers is the last inquiry. -/
theorem lastRequest_after (r : Runner n) (es : List Happening) :
    (r.after es).lastRequest = (r.lastInquiry es).or r.lastRequest ∧
      (r.after es).sync = r.sync := by
  induction es generalizing r with
  | nil => exact ⟨rfl, rfl⟩
  | cons e es ih =>
    obtain ⟨hlast, hsync⟩ := ih (r.next e)
    obtain ⟨hlast', hsync'⟩ := lastRequest_next r e
    refine ⟨?_, hsync.trans hsync'⟩
    change ((r.next e).after es).lastRequest = _
    rw [hlast, hlast', ← Option.or_assoc]
    rfl

lemma me_of_tick {v v' : Validator n} {intent : Intent} (h : v.tick now = .ok (v', intent)) :
    v'.manager.me = v.manager.me := by
  have hchores : Executor.Chores (.free (fun _ _ _ => True) True) v.toExecutor v'.toExecutor :=
    Validator.chores_tick (fun _ _ => trivial) trivial h
  exact hchores.pulses.invariant (P := fun x => x.manager.me = v.manager.me)
    (fun _ _ hpulse hx => hpulse.beats.invariant (P := fun x => x.manager.me = v.manager.me)
      (fun _ _ hbeat hx => hbeat.me_eq.trans hx) hx) rfl

lemma after_mem_trail (r : Runner n) (es : List Happening) : r.after es ∈ r.trail es := by
  induction es generalizing r with
  | nil => exact mem_trail_self r []
  | cons e es ih => exact mem_trail_cons.mpr (.inr (ih (r.next e)))

/-! ### Whole runs -/

/-- The validator before a tick, which may find any random source. -/
def poised (r : Runner n) (random : Random) : Validator n :=
  { r with effects := [], random }.toValidator

variable {config : Config} {me : Fin n} {height wallMillis : ℕ} {policy : BuildPolicy}
  {engine : Engine n} {v v' : Validator n} {intent : Intent}

/-- The manager of a validator is at rest all along its run. -/
lemma ready_of_mem_trail (hlimit : 3 ≤ config.maxIterations) (hv : v.toExecutor =
      { manager := .start config me height wallMillis, policy,
        pipeline := ⟨⟨engine, none⟩, [], false, false, 0⟩ }) (time : Duration) :
    ∀ x ∈ (start v time).trail es, x.manager.Ready := by
  have hfast : ∀ y ∈ (start v time).trail es, y.inConsensus = false → True := fun _ _ _ => trivial
  have hstart : (start v time).manager.Ready := by
    change v.toExecutor.manager.Ready
    rw [hv]
    exact Manager.ready_start hlimit me height wallMillis
  refine start_stirs_invariant (P := fun x => x.manager.Ready) hfast ?_ hstart
  intro x y hstirs hx
  exact hstirs.beats.invariant (P := fun z => z.manager.Ready)
    (fun _ _ hbeat hz => hbeat.ready hz) hx

/-- Wherever a tick follows an intent to fetch, somebody is asked for the sake of it if the intent
is another one than that of the last inquiry, or that was long enough ago, and nobody otherwise. One
peer that is recorded to have the block is asked for it, or each of the listed ones for its
signature, and nobody but a peer is ever asked, whatever the random source picks. -/
theorem fetches_asked (hlimit : 3 ≤ config.maxIterations) (hv : v.toExecutor =
      { manager := .start config me height wallMillis, policy,
        pipeline := ⟨⟨engine, none⟩, [], false, false, 0⟩ }) (hnew : v.lastRequest = none)
    (time : Duration) (es : List Happening) (random : Random)
    (h : (((start v time).after es).poised random).tick now = .ok (v', intent)) :
    let due := ∀ last ∈ (start v time).lastInquiry es,
      last.1 ≠ intent ∨ v.sync.requestResend ≤ now.since last.2
    (intent.isFetch = true → due → v'.manager.Asks intent v'.asked) ∧
      (intent.isFetch = true → ¬due → v'.asked = []) ∧
      (intent.isFetch = false → v'.asked = []) ∧
      ∀ mail ∈ v'.asked, IsPeer me mail.1 := by
  intro due
  obtain ⟨l, hinquires, hasks⟩ := Validator.tick_spec h
  have hasked : v'.asked = l := hinquires.asked
  obtain ⟨hlast, hsync⟩ := lastRequest_after (start v time) es
  have hdue : (((start v time).after es).poised random).requestDue intent now = true ↔ due := by
    have hfresh : (start v time).lastRequest = none := hnew
    have hsame : (start v time).sync = v.sync := rfl
    rw [Validator.requestDue_iff]
    simp only [due, poised, hlast, hsync, hfresh, hsame, Option.or_none]
  have hx := after_mem_trail (start v time) es
  have hready := ready_of_mem_trail hlimit hv time _ hx
  have ho := orderly_of_mem_trail hv time _ hx
  have hquiet : (((start v time).after es).poised random).toExecutor.Orderly :=
    ⟨ho.coherent, ho.count, ho.quiet, ho.defers, ho.fetches, ho.suits, ho.held⟩
  have hme : v'.manager.me = me := by
    rw [me_of_tick h]
    have hfirst : (start v time).manager.me = me := by
      change v.toExecutor.manager.me = me
      rw [hv]
      exact (Manager.fixed_start config me height wallMillis).1
    exact (me_of_mem_trail _ hx).trans hfirst
  rw [hasked, ← hme]
  have hsome : intent.isFetch = true → due → v'.manager.Asks intent l :=
    fun hfetch hd => hasks (hdue.mpr hd) hready hquiet hfetch
  have hlate : ¬due → l = [] := by
    intro hd
    apply hinquires.quiet
    left
    rwa [← Bool.not_eq_true, hdue]
  have hother : intent.isFetch = false → l = [] := fun hfetch => hinquires.quiet (.inr hfetch)
  refine ⟨hsome, fun _ => hlate, hother, ?_⟩
  by_cases hboth : intent.isFetch = true ∧ due
  · exact (hsome hboth.1 hboth.2).peer
  · have hnobody : l = [] := by
      by_cases hd : due
      · apply hother
        simpa using fun hfetch => hboth ⟨hfetch, hd⟩
      · exact hlate hd
    rw [hnobody]
    exact fun mail hmail => absurd hmail List.not_mem_nil

/-- The first of four validators, patient with its primary for 10 s. -/
def patientValidator : Validator 4 :=
  { exampleValidator with tracker := { exampleValidator.tracker with deadline := .ofMillis 10000 } }

/-- Validator 1 reports to hold the first block, and is asked for it. -/
def askingHolder : List Happening :=
  [holding 1 1 0 (firstBlock 1000), .tick (.ofMillis 4000)]

lemma exists_tick {v : Validator n} {intent : Intent}
    (h : (v.tick now).toOption.map Prod.snd = some intent) :
    ∃ v', v.tick now = .ok (v', intent) := by
  obtain ⟨⟨v', intent'⟩, hv, rfl⟩ := Option.map_eq_some_iff.mp h
  exact ⟨v', Manager.ok_of_toOption hv⟩

/-- Within a second nobody is asked for the same block again, and then validator 1 is. -/
theorem fetches_asked_again :
    let r := (start patientValidator .zero).after askingHolder
    let intent : Intent := .fetchUnfinishedBlock (firstBlock 1000).rid
    (∃ v', (r.poised (.ofSeed 7)).tick (.ofMillis 4999) = .ok (v', intent) ∧ v'.asked = []) ∧
      ∃ v', (r.poised (.ofSeed 7)).tick (.ofMillis 5000) = .ok (v', intent) ∧
        v'.manager.Asks intent v'.asked ∧ ∀ mail ∈ v'.asked, IsPeer (0 : Fin 4) mail.1 := by
  intro r intent
  have hv : patientValidator.toExecutor =
    { manager := .start {} 0 1 0, policy := { config := {}, lastBlock := .zero },
      pipeline := ⟨⟨{ me := 0, keys := exampleKeys }, none⟩, [], false, false, 0⟩ } := rfl
  have hlast : (start patientValidator .zero).lastInquiry askingHolder =
      some (intent, .ofMillis 4000) := by
    decide +kernel
  have hearly : ((r.poised (.ofSeed 7)).tick (.ofMillis 4999)).toOption.map Prod.snd =
      some intent := by
    decide +kernel
  have hlate : ((r.poised (.ofSeed 7)).tick (.ofMillis 5000)).toOption.map Prod.snd =
      some intent := by
    decide +kernel
  obtain ⟨v₁, hv₁⟩ := exists_tick hearly
  obtain ⟨v₂, hv₂⟩ := exists_tick hlate
  obtain ⟨-, hnobody, -⟩ := fetches_asked (by decide) hv rfl .zero askingHolder _ hv₁
  obtain ⟨hasks, -, -, hpeers⟩ := fetches_asked (by decide) hv rfl .zero askingHolder _ hv₂
  refine ⟨⟨v₁, hv₁, hnobody rfl ?_⟩, v₂, hv₂, hasks rfl ?_, hpeers⟩
  · intro hdue
    rcases hdue _ hlast with hother | hlong
    · exact hother rfl
    · exact absurd hlong (by decide)
  · intro last hmem
    rw [hlast] at hmem
    cases hmem
    exact .inr (by decide)

end Runner

end Conclave

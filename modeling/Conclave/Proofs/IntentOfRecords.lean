import Conclave.Proofs.ManagerQuestions
import Conclave.Proofs.Settling

/-!
# The intent is read off the records

What a status manager at rest asks for, and what it has made of its own status, is a function of the
recorded statuses and the commit signatures. The way it came to them, its previous intent included,
leaves no trace.
-/

namespace Conclave.Manager

variable {n : ℕ} {m m' x y : Manager n}

/-! ### What a recompute makes of the own status -/

/-- The own status at rest and the signatures that go with it. -/
def resting (m : Manager n) : NodeStatus × Table n (Option Signature) :=
  if m.own.phase ≠ .prepared ∧ m.behind then (dropped m.own, m.keptSignatures)
  else if m.own.revolting ∧ quorum n ≤ m.revoltVotes then
    ({ dropped m.own with revolting := false, round := (dropped m.own).round + 1,
                          serial := (dropped m.own).serial + 1 }, m.keptSignatures)
  else if m.own.phase = .haveBlock ∧ quorum n ≤ m.holders then
    ({ m.own with phase := .prepared, serial := m.own.serial + 1 }, m.signatures)
  else (m.own, m.signatures)

lemma resting_of_settled (hm : m.Coherent) (h : m.Settled) :
    m.resting = (m.own, m.signatures) := by
  unfold resting
  split
  · rename_i hb
    have hne : m.own.phase ≠ .haveBlock := by
      intro hp
      have hi := h.catchingUp hb.1 hb.2
      rw [hm.intent_of_having hp] at hi
      cases hi
    rw [dropped_of_ne hne, keptSignatures_of_ne hne]
  · rename_i hb
    rw [if_neg (h.calm hb), if_neg]
    rintro ⟨hp, hq⟩
    have hnb : m.behind = false := by simpa [hp] using hb
    exact Nat.not_lt.mpr hq (h.having hp hnb)

lemma becomes_of_step (h : m.step = some x) :
    m.Becomes x m.resting.1 m.resting.2 x.intent := by
  unfold resting
  cases stride_of_step h with
  | catchUp unprepared behind news becomes =>
    rw [if_pos ⟨unprepared, behind⟩, becomes.intent]
    exact becomes
  | nextRound upToDate revolting votes becomes =>
    rw [if_neg upToDate, if_pos ⟨revolting, votes⟩, becomes.intent]
    exact becomes
  | await upToDate calm phase news becomes =>
    rw [if_neg (by simp [upToDate]), if_neg calm, if_neg (by simp [phase]), becomes.intent]
    exact becomes
  | prepare upToDate calm phase held becomes =>
    rw [if_neg (by simp [upToDate]), if_neg calm, if_pos ⟨phase, held⟩, becomes.intent]
    exact becomes
  | commit calm phase news signed becomes =>
    rw [if_neg (by simp [phase]), if_neg calm, if_neg (by simp [phase]), becomes.intent]
    exact becomes
  | gather calm phase uncommitted unsigned rid held news becomes =>
    rw [if_neg (by simp [phase]), if_neg calm, if_neg (by simp [phase]), becomes.intent]
    exact becomes

lemma Becomes.trans {own own' : NodeStatus} {sigs sigs' : Table n (Option Signature)}
    {intent intent' : Intent} (h : m.Becomes x own sigs intent)
    (h' : x.Becomes y own' sigs' intent') : m.Becomes y own' sigs' intent' where
  me := h'.me.trans h.me
  config := h'.config.trans h.config
  statuses := by rw [h'.statuses, h.me, h.statuses, Table.put_put]
  signatures := h'.signatures
  intent := h'.intent

/-- A recompute that may take three steps brings the own status to rest, whatever the intent was. -/
theorem becomes_settle (hm : m.Coherent) {limit : ℕ} (hl : 3 ≤ limit) :
    m.Becomes (settle limit m) m.resting.1 m.resting.2 (settle limit m).intent := by
  have hrests := rests_settle hl m
  generalize settle limit m = r at hrests
  cases hrests with
  | already h =>
    rw [resting_of_settled hm h]
    exact m.becomes_self
  | once h hx => exact becomes_of_step h
  | twice h becomes hy =>
    have hfirst := becomes_of_step h
    have hboth := hfirst.trans becomes
    rwa [hfirst.own_eq, hfirst.signatures] at hboth

/-! ### Managers with the same records go on alike -/

lemma Alike.resting (h : Alike x y) : y.resting = x.resting := by
  unfold Manager.resting keptSignatures
  rw [h.own, h.behind, h.revoltVotes, h.holders, h.signatures]

lemma Alike.becomes {own : NodeStatus} {sigs : Table n (Option Signature)} {intent intent' : Intent}
    (h : Alike x y) (hx : x.Becomes m own sigs intent) (hy : y.Becomes m' own sigs intent') :
    Alike m m' where
  me := by rw [hy.me, h.me, hx.me]
  statuses := by rw [hy.statuses, h.me, h.statuses, hx.statuses]
  signatures := by rw [hy.signatures, hx.signatures]

/-- A coherent manager at rest that may take three steps. -/
structure Ready (m : Manager n) : Prop where
  coherent : m.Coherent
  settled : m.Settled
  limit : 3 ≤ m.config.maxIterations

/-- The intent at rest is a function of the records and the signatures. -/
theorem Alike.intent (h : Alike x y) (hx : x.Ready) (hy : y.Ready) : y.intent = x.intent := by
  have hown := h.own
  cases hp : x.own.phase with
  | waitBlock =>
    have hp' : y.own.phase = .waitBlock := by rw [hown, hp]
    cases hb : x.behind with
    | true =>
      have hb' : y.behind = true := by rw [h.behind, hb]
      rw [hx.settled.catchingUp (by simp [hp]) hb, hy.settled.catchingUp (by simp [hp']) hb', hown]
    | false =>
      have hb' : y.behind = false := by rw [h.behind, hb]
      rw [hx.settled.waiting hp hb, hy.settled.waiting hp' hb', h.waitingIntent]
  | haveBlock =>
    rw [hx.coherent.intent_of_having hp, hy.coherent.intent_of_having (by rw [hown, hp])]
  | prepared =>
    have hp' : y.own.phase = .prepared := by rw [hown, hp]
    obtain ⟨rid, hr⟩ := hx.coherent.exists_rid (by simp [hp])
    have hr' : y.own.rid = some rid := by rw [hown, hr]
    by_cases hc : x.intent = .commitBlock
    · by_contra hne
      have hs := hx.coherent.signed_of_committing hp hc
      have hs' := (hy.settled.prepared hp' (by rwa [← hc])).1
      rw [h.signed] at hs'
      omega
    · obtain ⟨hs, hi⟩ := hx.settled.prepared hp hc
      by_cases hc' : y.intent = .commitBlock
      · have hs' := hy.coherent.signed_of_committing hp' hc'
        rw [h.signed] at hs'
        omega
      · rw [hi rid hr, (hy.settled.prepared hp' hc').2 rid hr', h.preparedIntent]

lemma Alike.recompute (h : Alike x y) (hx : x.Coherent) (hy : y.Coherent)
    (hlx : 3 ≤ x.config.maxIterations) (hly : 3 ≤ y.config.maxIterations) :
    Alike x.recompute y.recompute := by
  have hbx := becomes_settle hx hlx
  have hby := becomes_settle hy hly
  rw [h.resting] at hby
  exact h.becomes hbx hby

lemma Alike.climb (h : Alike x y) : Alike x.climb y.climb := by
  have hy := becomes_climb y
  rw [h.own] at hy
  exact h.becomes (becomes_climb x) hy

lemma Alike.take (h : Alike x y) (rid : Rid) (signature : Signature) :
    Alike (x.take rid signature) (y.take rid signature) := by
  have hy := becomes_take y rid signature
  rw [h.own, h.me] at hy
  exact h.becomes (becomes_take x rid signature) hy

lemma Alike.collect (h : Alike x y) (i : Fin n) (signature : Signature) :
    Alike (x.collect i signature) (y.collect i signature) := by
  have hy := becomes_collect y i signature
  rw [h.own, h.signatures] at hy
  exact h.becomes (becomes_collect x i signature) hy

lemma Alike.rebel (h : Alike x y) : Alike x.rebel y.rebel := by
  have hy := becomes_rebel y
  rw [h.own, h.signatures] at hy
  exact h.becomes (becomes_rebel x) hy

lemma Alike.hear (h : Alike x y) (i : Fin n) (s : NodeStatus) : Alike (x.hear i s) (y.hear i s) :=
  ⟨by simp [h.me], by simp [h.statuses], by simp [h.signatures]⟩

lemma Alike.opening (h : Alike x y) (hi : y.intent = x.intent) (input : Input) :
    (x.opening input = none ∧ y.opening input = none) ∨
      ∃ x' y', x.opening input = some x' ∧ y.opening input = some y' ∧ Alike x' y' := by
  cases input with
  | status node s =>
    simp only [Manager.opening, h.me, h.statuses]
    split
    · split
      · exact .inr ⟨_, _, rfl, rfl, h.hear _ s⟩
      · exact .inl ⟨rfl, rfl⟩
    · exact .inl ⟨rfl, rfl⟩
  | heightAdvance height =>
    simp only [Manager.opening, h.own]
    split
    · exact .inr ⟨_, _, rfl, rfl, h.climb⟩
    · exact .inl ⟨rfl, rfl⟩
  | committed rid =>
    simp only [Manager.opening, h.own]
    split
    · exact .inr ⟨_, _, rfl, rfl, h.climb⟩
    · exact .inl ⟨rfl, rfl⟩
  | received rid signature =>
    simp only [Manager.opening, hi]
    split
    · exact .inr ⟨_, _, rfl, rfl, h.take rid signature⟩
    · exact .inl ⟨rfl, rfl⟩
  | built rid signature =>
    simp only [Manager.opening, hi, h.isPrimary]
    split
    · exact .inr ⟨_, _, rfl, rfl, h.take rid signature⟩
    · exact .inl ⟨rfl, rfl⟩
  | commitSignature node rid signature =>
    simp only [Manager.opening, h.own]
    split
    · split
      · exact .inr ⟨_, _, rfl, rfl, h.collect _ signature⟩
      · exact .inl ⟨rfl, rfl⟩
    · exact .inl ⟨rfl, rfl⟩
  | revolt => exact .inr ⟨_, _, rfl, rfl, h.rebel⟩
  | recompute => exact .inr ⟨x, y, rfl, rfl, h⟩
  | fastForward _ => exact .inl ⟨rfl, rfl⟩
  | time _ => exact .inl ⟨rfl, rfl⟩

namespace Ready

lemma respond (h : m.Ready) (input : Input) : (m.respond input).1.Ready where
  coherent := h.coherent.respond input
  settled := h.settled.respond h.limit input
  limit := by rw [(fixed_respond m input).2]; exact h.limit

lemma advanceHeight (h : m.Ready) : m.advanceHeight.Ready := by
  have hl : 3 ≤ m.climb.config.maxIterations := by
    rw [(becomes_climb m).config]
    exact h.limit
  refine ⟨(coherent_climb m).recompute, settled_recompute hl, ?_⟩
  rw [config_advanceHeight]
  exact h.limit

lemma run {inputs : List Input} (h : m.Ready) (hr : m.run inputs = .ok m') : m'.Ready where
  coherent := h.coherent.run hr
  settled := h.settled.run h.limit hr
  limit := by rw [(fixed_run hr).2]; exact h.limit

end Ready

lemma ready_start {config : Config} (hl : 3 ≤ config.maxIterations) (me : Fin n)
    (height wallMillis : ℕ) : (start config me height wallMillis).Ready where
  coherent := coherent_start config me height wallMillis
  settled := settled_start hl me height wallMillis
  limit := by rw [(fixed_start config me height wallMillis).2]; exact hl

lemma Alike.advance (h : Alike x y) (hx : x.Ready) (hy : y.Ready) (heights : ℕ) :
    Alike (advance heights x) (advance heights y) := by
  induction heights generalizing x y with
  | zero => exact h
  | succ heights ih =>
    refine ih ?_ hx.advanceHeight hy.advanceHeight
    apply h.climb.recompute (coherent_climb x) (coherent_climb y)
    · rw [(becomes_climb x).config]
      exact hx.limit
    · rw [(becomes_climb y).config]
      exact hy.limit

/-- Whatever they are told, managers that are alike stay alike. -/
theorem Alike.respond (h : Alike x y) (hx : x.Ready) (hy : y.Ready) (input : Input) :
    Alike (x.respond input).1 (y.respond input).1 := by
  have hopening := h.opening (h.intent hx hy) input
  rcases respond_cases x input with ⟨x', ho, he⟩ | ⟨ho, c, hc, hle, he⟩ | ⟨ho, hf, hb⟩
  · rcases hopening with ⟨hn, -⟩ | ⟨a, y', ha, ho', halike⟩
    · simp [hn] at ho
    rw [ho] at ha
    cases ha
    rw [he, (respond_opening ho').2]
    refine halike.recompute ((respond_opening ho).1 |> hx.coherent.move)
      ((respond_opening ho').1 |> hy.coherent.move) ?_ ?_
    · rw [config_opening ho]
      exact hx.limit
    · rw [config_opening ho']
      exact hy.limit
  · subst hc
    have hy' : (y.respond (.fastForward c)).1 =
        Manager.advance (Word.saturate (c + 1) - y.own.height) y := by
      simp only [Manager.respond, fastForward, h.own, hle, if_false]
    rw [he, hy', h.own]
    exact h.advance hx hy _
  · rcases respond_cases y input with ⟨y', ho', -⟩ | ⟨-, c, hc, hle, -⟩ | ⟨-, -, hb'⟩
    · rcases hopening with ⟨-, hn⟩ | ⟨a, -, ha, -⟩
      · simp [hn] at ho'
      · simp [ha] at ho
    · rw [h.own] at hle
      exact (hle (hf c hc)).elim
    · exact hb.alike.symm.trans (h.trans hb'.alike)

/-- Runs from managers that are alike end alike, both or neither with a fault. -/
theorem Alike.run (h : Alike x y) (hx : x.Ready) (hy : y.Ready) {inputs : List Input}
    (hr : x.run inputs = .ok m) : ∃ m', y.run inputs = .ok m' ∧ Alike m m' := by
  induction inputs generalizing x y with
  | nil =>
    cases hr
    exact ⟨y, rfl, h⟩
  | cons input inputs ih =>
    have hnext := h.respond hx hy input
    obtain ⟨hin, hrest⟩ := run_cons_eq_ok.mp hr
    obtain ⟨m', hm', halike⟩ := ih hnext (hx.respond input) (hy.respond input) hrest
    rw [← hnext.own] at hin
    exact ⟨m', run_cons_eq_ok.mpr ⟨hin, hm'⟩, halike⟩

/-! ### The intent of every reachable manager -/

namespace Ready

lemma intent_of_having (h : m.Ready) (hp : m.own.phase = .haveBlock) :
    m.behind = false ∧ m.intent = .doNothing ∧
      ∃ rid, m.own.rid = some rid ∧ (m.holdersOf m.own.height rid).card < quorum n := by
  have hi := h.coherent.intent_of_having hp
  have hb : m.behind = false := by
    by_contra hb
    have hfetch := h.settled.catchingUp (by simp [hp]) (by simpa using hb)
    rw [hi] at hfetch
    cases hfetch
  obtain ⟨rid, hr⟩ := h.coherent.exists_rid (by simp [hp])
  refine ⟨hb, hi, rid, hr, ?_⟩
  rw [← holders_eq_card hr]
  exact h.settled.having hp hb

lemma commits_iff (h : m.Ready) (hp : m.own.phase = .prepared) :
    m.intent = .commitBlock ↔ quorum n ≤ m.signed := by
  refine ⟨h.coherent.signed_of_committing hp, fun hq => ?_⟩
  by_contra hne
  have hs := (h.settled.prepared hp hne).1
  omega

lemma own_not_mem_sources (h : m.Ready) (hp : m.own.phase = .prepared) (rid : Rid) :
    m.me.val ∉ m.signatureSources rid := by
  intro hmem
  obtain ⟨i, hi, hs, -⟩ := mem_signatureSources.mp hmem
  have hfilled := h.coherent.sigs_of_prepared hp
  rw [← Fin.ext hi, hs] at hfilled
  cases hfilled

lemma revoltVotes_lt (h : m.Ready) (hr : m.own.revolting = true)
    (hb : m.own.phase = .prepared ∨ m.behind = false) : m.revoltVotes < quorum n := by
  have hcalm := h.settled.calm (by rcases hb with hb | hb <;> simp [hb])
  simpa [hr] using hcalm

end Ready

section Reachable

variable {config : Config} {me : Fin n} {height wallMillis : ℕ} {inputs : List Input}

/-- After every run of a manager that may take three steps, the intent can be read off the recorded
statuses and the signatures: a waiting manager catches up if it is behind, else it builds or asks
for the block of the primary; one that has a block is not behind and does nothing until a quorum
holds it; one that is prepared commits as soon as a quorum has signed and collects signatures until
then. No quorum revolts with it. Any two managers of one validator that came to the same records and
signatures, by whatever runs, have the same intent and stay alike under the same inputs. -/
theorem intent_of_records (hlimit : 3 ≤ config.maxIterations)
    (hrun : (start config me height wallMillis).run inputs = .ok m) :
    let h := m.own.height
    let r := m.own.round
    let record := fun i => m.statuses.get i
    let behind := (Finset.univ.filter fun i => (record i).height = h).card < quorum n ∧
      ∃ i, h < (record i).height
    (m.own.phase = .waitBlock →
      (behind → m.intent = .fetchBlockAtHeight h) ∧
      (¬behind → ∀ p : Fin n, p.val = (h + r) % n →
        (p = me → m.intent = .buildBlock) ∧
        (p ≠ me →
          (∀ rid, (record p).height = h → (record p).rid = some rid →
            m.intent = .fetchUnfinishedBlock rid) ∧
          ((record p).height ≠ h ∨ (record p).rid = none → m.intent = .doNothing)))) ∧
    (m.own.phase = .haveBlock →
      ¬behind ∧ m.intent = .doNothing ∧
        ∃ rid, m.own.rid = some rid ∧ (m.holdersOf h rid).card < quorum n) ∧
    (m.own.phase = .prepared →
      ∃ rid, m.own.rid = some rid ∧
        (m.intent = .commitBlock ↔
          quorum n ≤ (Finset.univ.filter fun i => (m.signatures.get i).isSome = true).card) ∧
        ∃ sources : List ℕ, sources.Pairwise (· < ·) ∧
          (∀ k, k ∈ sources ↔ ∃ i : Fin n, i.val = k ∧ m.signatures.get i = none ∧
            (h < (record i).height ∨ ((record i).height = h ∧ (record i).phase = .prepared ∧
              (record i).rid = some rid))) ∧
          me.val ∉ sources ∧
          (m.intent ≠ .commitBlock →
            m.intent = if sources = [] then .doNothing else .fetchCommitSignatures rid sources)) ∧
    (m.own.revolting = true → m.own.phase = .prepared ∨ ¬behind →
      (Finset.univ.filter fun i => (record i).height = h ∧
        (((record i).round = r ∧ (record i).revolting = true) ∨ r < (record i).round)).card <
          quorum n) ∧
    (∀ (config' : Config) (height' wallMillis' : ℕ) (inputs' : List Input) (m' : Manager n),
      3 ≤ config'.maxIterations → (start config' me height' wallMillis').run inputs' = .ok m' →
      m'.statuses = m.statuses → m'.signatures = m.signatures →
        m'.intent = m.intent ∧
        ∀ more x, m.run more = .ok x → ∃ x', m'.run more = .ok x' ∧
          x'.statuses = x.statuses ∧ x'.signatures = x.signatures ∧ x'.intent = x.intent) := by
  intro h r record behind
  have hm : m.Ready := (ready_start hlimit me height wallMillis).run hrun
  have hme : m.me = me := (fixed_run hrun).1.trans (fixed_start config me height wallMillis).1
  have hbehind : m.behind = true ↔ behind := behind_iff
  have hnot : m.behind = false ↔ ¬behind := by rw [← hbehind, Bool.not_eq_true]
  refine ⟨?waiting, ?having, ?prepared, ?revolting, ?history⟩
  case waiting =>
    intro hp
    refine ⟨fun hb => hm.settled.catchingUp (by simp [hp]) (hbehind.mpr hb), fun hb p hval => ?_⟩
    rw [hm.settled.waiting hp (hnot.mpr hb), ← hme]
    exact waitingIntent_eq hval
  case having =>
    intro hp
    rw [← hnot]
    exact hm.intent_of_having hp
  case prepared =>
    intro hp
    obtain ⟨rid, hr⟩ := hm.coherent.exists_rid (by simp [hp])
    refine ⟨rid, hr, ?_, m.signatureSources rid, pairwise_signatureSources m rid,
      fun k => mem_signatureSources, ?_, fun hc => ?_⟩
    · rw [← signed_eq_card]
      exact hm.commits_iff hp
    · rw [← hme]
      exact hm.own_not_mem_sources hp rid
    · rw [(hm.settled.prepared hp hc).2 rid hr]
      exact preparedIntent_eq m rid
  case revolting =>
    intro hr hb
    rw [← hnot] at hb
    have hvotes := hm.revoltVotes_lt hr hb
    unfold revoltVotes at hvotes
    rw [tally_eq_card] at hvotes
    simpa using hvotes
  case history =>
    intro config' height' wallMillis' inputs' m' hlimit' hrun' hstatuses hsignatures
    have hm' : m'.Ready := (ready_start hlimit' me height' wallMillis').run hrun'
    have hme' : m'.me = me :=
      (fixed_run hrun').1.trans (fixed_start config' me height' wallMillis').1
    have halike : Alike m m' := ⟨hme'.trans hme.symm, hstatuses, hsignatures⟩
    refine ⟨halike.intent hm hm', fun more x hx => ?_⟩
    obtain ⟨x', hx', hxx'⟩ := halike.run hm hm' hx
    exact ⟨x', hx', hxx'.statuses, hxx'.signatures, hxx'.intent (hm.run hx) (hm'.run hx')⟩

/-- A validator with a prepared block and two of four signatures still asks for the third. -/
theorem intent_of_records_collecting :
    let peer := NodeStatus.mk 4 1 0 .prepared (some .zero) false
    let inputs : List Input :=
      [.built .zero default, .status 1 peer, .status 2 peer, .commitSignature 1 .zero default]
    ∃ m, (start { maxIterations := 3 } (0 : Fin 4) 4 0).run inputs = .ok m ∧
      m.own.phase = .prepared ∧ m.intent = .fetchCommitSignatures .zero [2] ∧
      ¬quorum 4 ≤ (Finset.univ.filter fun i => (m.signatures.get i).isSome = true).card := by
  intro peer inputs
  have hview : ((start { maxIterations := 3 } (0 : Fin 4) 4 0).run inputs).toOption.map
      (fun m => (m.own.phase, m.intent)) =
        some (.prepared, .fetchCommitSignatures .zero [2]) := by decide +kernel
  obtain ⟨m, hm, hseen⟩ := Option.map_eq_some_iff.mp hview
  obtain ⟨hphase, hintent⟩ := Prod.mk.inj hseen
  refine ⟨m, ok_of_toOption hm, hphase, hintent, ?_⟩
  obtain ⟨rid, -, hcommits, -⟩ := (intent_of_records (by decide) (ok_of_toOption hm)).2.2.1 hphase
  rw [← hcommits, hintent]
  exact fun h => (nomatch h)

end Reachable

end Conclave.Manager

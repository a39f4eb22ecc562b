import Conclave.Proofs.BuildPause
import Conclave.Proofs.ForceStop
import Conclave.Proofs.UnexpectedSenders

/-!
# Builds wait for the pause

Failed builds and committed blocks reach the build policy from the answers of the pipeline and from
the end of a fast sync. The executor hands no build to its pipeline without asking whether the pause
is over, whatever else it does in the meantime.
-/

namespace Conclave

variable {n : ℕ}

/-- What an answer means for the pause; a block that was added counts if the own height has `grown`
by it. -/
def Answer.tidings? (now : Duration) (grown : Bool) : Answer Task → Option BuildPolicy.Tidings
  | ⟨.build, .error cause⟩ =>
    if cause = .engine .forceStopped then none else some (.buildFailed now)
  | ⟨.commit .., .ok _⟩ => some .blockCommitted
  | ⟨.add .., .ok _⟩ => if grown then some .blockCommitted else none
  | _ => none

/-- Only operations bring news. -/
lemma Answer.tidings_of_aside {a : Answer Task} (h : a.task.isOperation = false) (now : Duration)
    (grown : Bool) : a.tidings? now grown = none := by
  obtain ⟨t, result⟩ := a
  cases t with
  | build | load | add | commit => cases h
  | _ => cases result <;> rfl

namespace Executor

open BuildPolicy (SameRecord Tidings retell)

variable {x y z : Executor n} {told : Option Duration} {now : Duration} {t : Task}
  {a : Answer Task} {answers : List (Answer Task)}

/-! ### Changes that heed the pause -/

/-- How many builds are outstanding. -/
def builds (x : Executor n) : ℕ := x.outstanding.count .build

/-- From `x` to `y` the failures stay, and a build is handed to the pipeline only at a time, the one
that was `told`, at which it need not wait. -/
structure Heeds (told : Option Duration) (x y : Executor n) : Prop where
  record : SameRecord x.policy y.policy
  builds : x.builds < y.builds → ∃ now, told = some now ∧ y.policy.mustWait now = false

/-- The pause that was over before is over after. -/
lemma Heeds.builds_of (h : Heeds told y z)
    (hbefore : x.builds < y.builds → ∃ now, told = some now ∧ y.policy.mustWait now = false)
    (hlt : x.builds < z.builds) : ∃ now, told = some now ∧ z.policy.mustWait now = false := by
  by_cases hfirst : x.builds < y.builds
  · obtain ⟨now, hnow, hgo⟩ := hbefore hfirst
    exact ⟨now, hnow, (h.record.mustWait now).trans hgo⟩
  · exact h.builds (by omega)

lemma Heeds.trans (h : Heeds told x y) (h' : Heeds told y z) : Heeds told x z :=
  ⟨h.record.trans h'.record, h'.builds_of h.builds⟩

lemma heeds_of_le (hrecord : SameRecord x.policy y.policy) (hle : y.builds ≤ x.builds) :
    Heeds told x y := ⟨hrecord, fun hlt => absurd hlt (Nat.not_lt.mpr hle)⟩

/-- Whatever changes besides the tasks. -/
lemma heeds_books {manager : Manager n} {policy : BuildPolicy} {previous intent : Intent}
    {block : Option Block} {blockTime : Option Duration} {busy awaited : Bool}
    {effects : List Effect} (h : SameRecord x.policy policy) :
    Heeds told x
      { x with manager, policy, previous, intent, block, blockTime, busy, awaited, effects } :=
  heeds_of_le h le_rfl

lemma builds_submit (x : Executor n) (ht : t ≠ .build) : (x.submit t).builds = x.builds := by
  unfold builds
  rw [(outstanding_submit x t).count_eq, List.count_cons_of_ne ht]

lemma heeds_submit (x : Executor n) (ht : t ≠ .build) : Heeds told x (x.submit t) :=
  heeds_of_le (SameRecord.refl _) (builds_submit x ht).le

lemma heeds_exit (x : Executor n) : Heeds told x { x with pipeline := x.pipeline.exit } := by
  refine heeds_of_le (SameRecord.refl _) ?_
  unfold builds outstanding
  rw [queue_exit]

lemma builds_take (h : x.answers.Perm (a :: answers)) :
    ({ x with answers } : Executor n).builds ≤ x.builds := by
  unfold builds
  rw [(outstanding_conclude h).count_eq]
  exact List.count_le_count_cons

/-! ### Chores -/

/-- A build is started at the time that was told only, and no fast sync ends. -/
def Scope.ongoing (told : Option Duration) : Scope where
  allows _ := True
  log _ _ := trivial
  acts now := told = some now
  heard _ _ _ := True
  fast := True
  leaves := False

lemma builds_start (x : Executor n) (ht : t ≠ .build) :
    ({ x with busy := true, intent := .doNothing }.submit t).builds = x.builds :=
  builds_submit { x with busy := true, intent := .doNothing } ht

/-- This is the only way to a build, and the pause is in it. -/
lemma Turns.heeds (h : Turns x now y) : Heeds (some now) x y := by
  have haside : SameRecord x.policy x.policyAside := by
    unfold policyAside
    split
    · exact BuildPolicy.sameRecord_setForceStop _ _
    · exact SameRecord.refl _
  have hclear : SameRecord x.policy (x.policy.setForceStop false) :=
    BuildPolicy.sameRecord_setForceStop _ _
  have hdue : SameRecord x.policy
      ((x.turned (x.policy.setForceStop false)).shouldBuild now).2.policy :=
    hclear.trans (BuildPolicy.sameRecord_shouldBuild _ _ _)
  cases h with
  | follow | missing => exact heeds_books haside
  | commit => exact heeds_of_le haside (builds_start (x.turned x.policyAside) (by simp)).le
  | pause => exact heeds_books hclear
  | rest => exact heeds_books hdue
  | build intent rested =>
    refine ⟨hdue, fun _ => ⟨now, rfl, ?_⟩⟩
    have hover := (BuildPolicy.sameRecord_shouldBuild (x.policy.setForceStop false)
      x.engine.queue.size now).mustWait now
    exact hover.trans rested

lemma Chore.heeds (h : Chore (.ongoing told) x y) : Heeds told x y := by
  cases h with
  | say | tell | wait => exact heeds_books (SameRecord.refl _)
  | weigh => exact heeds_books (BuildPolicy.sameRecord_shouldBuild _ _ _)
  | ask t aside =>
    refine heeds_submit x ?_
    rintro rfl
    cases aside
  | check => exact heeds_submit x (by simp)
  | take t block =>
    refine heeds_of_le (SameRecord.refl _) (builds_start x ?_).le
    rcases block with ⟨b, rfl⟩ | ⟨b, height, rfl⟩ <;> simp
  | act now time idle =>
    cases time
    exact (turns_update idle now).heeds
  | drop answered => exact heeds_of_le (SameRecord.refl _) (builds_take answered)
  | leave _ _ ends => exact ends.elim
  | exit => exact heeds_exit x
  | stop | supply => exact heeds_of_le (SameRecord.refl _) le_rfl

lemma Chores.heeds (h : Chores (.ongoing told) x y) : Heeds told x y :=
  h.invariant (P := Heeds told x) (fun _ _ hchore hx => hx.trans hchore.heeds)
    (heeds_books (SameRecord.refl _))

/-! ### Results -/

/-- From `x` to `y` the `news` are remembered besides. -/
structure Minds (told : Option Duration) (news : Option Tidings) (x y : Executor n) : Prop where
  record : ∀ c failed, x.policy.Remembers c failed → y.policy.Remembers c (retell failed news)
  builds : x.builds < y.builds → ∃ now, told = some now ∧ y.policy.mustWait now = false

variable {news : Option Tidings}

lemma Heeds.minds (h : Heeds told x y) : Minds told none x y :=
  ⟨fun _ _ hx => hx.same h.record, h.builds⟩

lemma Minds.heeds (h : Minds told news x y) (h' : Heeds told y z) : Minds told news x z :=
  ⟨fun c failed hx => (h.record c failed hx).same h'.record, h'.builds_of h.builds⟩

lemma Heeds.then_minds (h : Heeds told x y) (h' : Minds told news y z) (hle : y.builds ≤ x.builds) :
    Minds told news x z where
  record c failed hx := h'.record c failed (hx.same h.record)
  builds hlt := h'.builds (by omega)

/-- The own height grows by a block that is added exactly when that is the next one. -/
lemma grown_iff_applied (m : Manager n) (height : ℕ) :
    m.own.height < (m.respond (.heightAdvance height)).1.own.height ↔
      (m.respond (.heightAdvance height)).2 = true := by
  simp only [Manager.respond, Manager.onHeightAdvance]
  split
  · simp [Manager.height_advanceHeight]
  · simp [Manager.reject]

/-- What an answer means is remembered once it is settled. -/
lemma Settles.minds (h : Settles x now a y) :
    Minds told (a.tidings? now (x.manager.own.height < y.manager.own.height)) x y := by
  have hplain : ∀ {z : Executor n}, SameRecord x.policy z.policy → z.builds = x.builds →
      Minds told none x z := fun hsame hbuilds => (heeds_of_le hsame hbuilds.le).minds
  cases h with
  | nothing silent spared =>
    have hnone : ∀ grown, a.tidings? now grown = none := by
      intro grown
      obtain ⟨t, cause | reply⟩ := a
      · cases t with
        | build => exact if_pos (spared cause rfl)
        | _ => rfl
      · cases t with
        | add | commit => cases silent
        | _ => rfl
    rw [hnone]
    exact hplain (SameRecord.refl _) rfl
  | failed own =>
    simp only [Answer.tidings?, if_neg own]
    exact ⟨fun _ _ hx => hx.blockFailed now, fun hlt => absurd hlt (lt_irrefl _)⟩
  | @report t reply input said =>
    cases t with
    | add b height =>
      cases said
      have hgrown := grown_iff_applied x.manager (height + 1)
      simp only [keep]
      cases happlied : (x.manager.respond (.heightAdvance (height + 1))).2 with
      | true =>
        simp only [if_true, Answer.tidings?, pass, hgrown.mpr happlied, decide_true]
        exact ⟨fun _ _ hx => hx.blockCommitted _, fun hlt => absurd hlt (lt_irrefl _)⟩
      | false =>
        have hsame := mt hgrown.mp (by simp [happlied])
        simp only [Bool.false_eq_true, if_false, Answer.tidings?, hsame, decide_false]
        exact hplain (SameRecord.refl _) rfl
    | commit b signatures =>
      cases said
      exact ⟨fun _ _ hx => hx.blockCommitted _, fun hlt => absurd hlt (lt_irrefl _)⟩
    | build | load =>
      cases said
      simp only [keep]
      generalize (x.manager.respond _).2 = applied
      cases applied <;> exact hplain (SameRecord.refl _) rfl
    | verify => exact hplain (SameRecord.refl _) rfl
    | serveBlock | serveSignature | chainHeight | fastAdd => cases said

/-- A result is applied, and what follows it heeds the news. -/
theorem minds_finish (h : x.finish now a = .ok y) :
    Minds (some now) (a.tidings? now (x.manager.own.height < y.manager.own.height)) x y := by
  obtain ⟨z₁, z, hfirst, hsettles, hchores, hmanager⟩ :=
    finish_cases (c := .ongoing (some now)) (fun _ => trivial) rfl h
  have htime : Heeds (some now) x z₁ ∧ z₁.builds = x.builds ∧
      z₁.manager.own.height = x.manager.own.height := by
    rcases hfirst with rfl | rfl <;> exact ⟨heeds_books (SameRecord.refl _), rfl, rfl⟩
  obtain ⟨hheeds, hbuilds, hheight⟩ := htime
  have hnews : a.tidings? now (x.manager.own.height < y.manager.own.height) =
      a.tidings? now (z₁.manager.own.height < z.manager.own.height) := by
    by_cases hop : a.task.isOperation = true
    · rw [hmanager hop, hheight]
    · rw [Answer.tidings_of_aside (eq_false_of_ne_true hop)]
      exact (Answer.tidings_of_aside (eq_false_of_ne_true hop) _ _).symm
  rw [hnews]
  exact hheeds.then_minds (hsettles.minds.heeds hchores.heeds) hbuilds.le

/-- Catching up that is turned down leaves the height. -/
lemma applied_of_grown {m : Manager n} {committed : ℕ}
    (h : m.own.height < (m.respond (.fastForward committed)).1.own.height) :
    (m.respond (.fastForward committed)).2 = true := by
  simp only [Manager.respond, Manager.fastForward] at h ⊢
  split at h
  · exact absurd h (lt_irrefl _)
  · rename_i hup
    rw [if_neg hup]

/-- The end of a fast sync counts as a block if it has brought one. -/
lemma minds_catchUp (x : Executor n) (committed : ℕ) (timestamp : Option ℕ) :
    Minds told
      (if x.manager.own.height < (x.catchUp committed timestamp).manager.own.height then
        timestamp.map fun _ => .blockCommitted
      else none) x (x.catchUp committed timestamp) := by
  have hmanager : (x.catchUp committed timestamp).manager =
      (x.manager.respond (.fastForward committed)).1 := by
    simp only [catchUp]
    split <;> rfl
  rw [hmanager]
  simp only [catchUp]
  by_cases hgrown :
      x.manager.own.height < (x.manager.respond (.fastForward committed)).1.own.height
  · rw [if_pos hgrown, if_pos ⟨applied_of_grown hgrown, hgrown⟩]
    cases timestamp with
    | none => exact (heeds_books (SameRecord.refl _)).minds
    | some _ => exact ⟨fun _ _ hx => hx.blockCommitted _, fun hlt => absurd hlt (lt_irrefl _)⟩
  · rw [if_neg hgrown, if_neg fun hboth => hgrown hboth.2]
    exact (heeds_books (SameRecord.refl _)).minds

end Executor

open BuildPolicy (SameRecord Tidings retell)
open Executor (Minds heeds_books)

/-! ### The loop -/

namespace Runner

variable {r r' : Runner n} {told : Option Duration} {now time rung : Duration}

/-- The blocks of a fast sync count as committed at its end, if it has taken the own height on. -/
def arrival? (r r' : Runner n) : Option Tidings :=
  match r.stage with
  | .finishing (some _) =>
    if r.manager.own.height < r'.manager.own.height then some .blockCommitted else none
  | _ => none

lemma arrival_eq_none_of_stage (h : ∀ timestamp, r.stage ≠ .finishing (some timestamp)) :
    r.arrival? r' = none := by
  unfold arrival?
  split
  · rename_i timestamp hstage
    exact absurd hstage (h timestamp)
  · rfl

lemma arrival_eq_none_of_height (h : ¬r.manager.own.height < r'.manager.own.height) :
    r.arrival? r' = none := by
  unfold arrival?
  split
  · rw [if_neg h]
  · rfl

lemma minds_resume {timestamp : Option ℕ} {a : Answer Task}
    (hstage : r.stage = .finishing timestamp) (h : r.resume now time a = .ok r') :
    Minds told (r.arrival? r') r.toExecutor r'.toExecutor := by
  have hsame : r'.manager = r.manager → Minds told none r.toExecutor r'.toExecutor →
      Minds told (r.arrival? r') r.toExecutor r'.toExecutor := fun hmanager hminds => by
    rwa [arrival_eq_none_of_height (by rw [hmanager]; exact lt_irrefl _)]
  unfold resume at h
  split at h
  · obtain ⟨x, entry, rfl, rfl | ⟨committed, rfl⟩⟩ := heightRead_of_finishing hstage h
    · exact hsame rfl (heeds_books (SameRecord.refl _)).minds
    · have hminds : Minds told _ (r.toExecutor.setTime now) _ :=
        Executor.minds_catchUp _ committed timestamp
      have hnews : ∀ y : Executor n, r.arrival? { r with toExecutor := y, stage := .ready } =
          if r.manager.own.height < y.manager.own.height then
            timestamp.map fun _ => .blockCommitted
          else none := by
        intro y
        cases timestamp with
        | none => simp [arrival?, hstage]
        | some timestamp => simp [arrival?, hstage]
      rw [hnews]
      exact ⟨hminds.record, hminds.builds⟩
  · simp only [blockAdded, hstage] at h
    cases h
    exact hsame rfl (heeds_books (SameRecord.refl _)).minds
  · cases h
    exact hsame rfl (heeds_books (SameRecord.refl _)).minds

theorem minds_turn (h : r.turn now time rung = .ok (some r')) :
    Minds (some now) (r.arrival? r') r.toExecutor r'.toExecutor := by
  by_cases hends : ∃ timestamp, r.stage = .finishing timestamp
  · obtain ⟨timestamp, hstage⟩ := hends
    cases takes_of_turn h with
    | @resume a answers _ _ _ perm resumed =>
      have hle := Executor.builds_take perm
      have htaken : Executor.Heeds (some now) r.toExecutor { r.toExecutor with answers } :=
        Executor.heeds_of_le (SameRecord.refl _) hle
      exact htaken.then_minds (minds_resume (r := { r with answers }) hstage resumed) hle
    | shutDown stage | handle stage | hangUp stage | tick stage | giveUp stage | fetched stage
    | timeOut stage | pause stage | stop stage | finish stage => simp [hstage] at stage
  · obtain ⟨hchores, -⟩ := chores_turn (c := .ongoing (some now)) (fun _ => trivial) rfl
      (attentive_true r) (fun _ => trivial) (fun timestamp hstage => hends ⟨timestamp, hstage⟩) h
    rw [arrival_eq_none_of_stage fun timestamp hstage => hends ⟨_, hstage⟩]
    exact hchores.heeds.minds

/-! ### Happenings -/

/-- What there is to remember of a happening that leads to `r'`. -/
def news? (r r' : Runner n) : Happening → Option Tidings
  | .finish now index =>
    (r.answers[index]?).bind
      (Answer.tidings? now (r.manager.own.height < r'.manager.own.height))
  | .turn .. => r.arrival? r'
  | _ => none

/-- What there is to remember of a happening. A fault leaves nothing. -/
def tidings? (r : Runner n) (e : Happening) : Option Tidings :=
  match ({ r with effects := [] } : Runner n).step e with
  | .ok r' => r.news? r' e
  | .error _ => none

/-- The executor without the answer that is going to be applied. -/
def kept (r : Runner n) : Happening → Executor n
  | .finish _ index => { r.toExecutor with answers := r.answers.eraseIdx index }
  | _ => r.toExecutor

/-- A build is handed to the pipeline. -/
def SubmitsBuild (r : Runner n) (e : Happening) : Prop :=
  ∃ r', ({ r with effects := [] } : Runner n).step e = .ok r' ∧ (r.kept e).builds < r'.builds

variable {r r' : Runner n} {e : Happening} {es : List Happening}

lemma minds_step (h : r.step e = .ok r') :
    Minds e.now? (r.news? r' e) (r.kept e) r'.toExecutor := by
  have hsteps : (∀ now time rung, e ≠ .turn now time rung) → Steps (.ongoing e.now?) r e r' :=
    fun hother => steps_of_step (fun _ => trivial) (fun _ hnow => hnow) (attentive_true r)
      (fun _ _ _ _ => trivial) (fun _ => trivial)
      (fun now time rung he => absurd he (hother now time rung)) h
  cases e with
  | turn now time rung =>
    obtain ⟨taken, hturn, hr⟩ := Manager.exists_of_bind_eq_ok h
    cases hr
    cases taken with
    | none =>
      simp only [news?, Option.getD_none, arrival_eq_none_of_height (lt_irrefl _)]
      exact (heeds_books (SameRecord.refl _)).minds
    | some r₁ => exact minds_turn hturn
  | finish now index =>
    simp only [step] at h
    simp only [news?, kept]
    split at h
    · rename_i hnone
      cases h
      rw [hnone, List.eraseIdx_of_length_le (List.getElem?_eq_none_iff.mp hnone)]
      exact (heeds_books (SameRecord.refl _)).minds
    · rename_i a ha
      obtain ⟨x, hx, hr⟩ := Manager.exists_of_bind_eq_ok h
      cases hr
      rw [ha]
      exact Executor.minds_finish hx
  | work now =>
    cases hsteps (by simp) with
    | chores chores => exact chores.heeds.minds
    | @work _ a p effects next =>
      have hran : Executor.Heeds (some now) r.toExecutor
          { r.toExecutor with pipeline := p, answers := r.answers ++ [a], effects } :=
        Executor.heeds_of_le (SameRecord.refl _)
          ((Executor.outstanding_next next effects).count_eq _).le
      exact hran.minds
  | message | mail | tick | pump | revolt | push | spoil | shutDown | closeInbox | stop =>
    cases hsteps (by simp) with
    | chores chores => exact chores.heeds.minds

/-! ### Whole runs -/

/-- The times of the builds that have failed since the last block, after all happenings. -/
def failedBuilds (r : Runner n) (failed : List Duration) : List Happening → List Duration
  | [] => failed
  | e :: es => (r.next e).failedBuilds (retell failed (r.tidings? e)) es

variable {c : BuildingConfig} {failed : List Duration}

lemma remembers_next (h : r.policy.Remembers c failed) (e : Happening) :
    (r.next e).policy.Remembers c (retell failed (r.tidings? e)) := by
  unfold next tidings?
  cases hstep : ({ r with effects := [] } : Runner n).step e with
  | error fault => exact h
  | ok r' =>
    have hpolicy : (({ r with effects := [] } : Runner n).kept e).policy = r.policy := by
      cases e <;> rfl
    have hminds := (minds_step hstep).record c failed
    rw [hpolicy] at hminds
    exact hminds h

lemma remembers_after (h : r.policy.Remembers c failed) (es : List Happening) :
    (r.after es).policy.Remembers c (r.failedBuilds failed es) := by
  induction es generalizing r failed with
  | nil => exact h
  | cons e es ih => exact ih (remembers_next h e)

lemma now_of_tidings {now : Duration} (h : r.tidings? e = some (.buildFailed now)) :
    e.now? = some now := by
  unfold tidings? at h
  split at h
  · rename_i r' hstep
    cases e with
    | finish now' index =>
      obtain ⟨a, -, ha⟩ := Option.bind_eq_some_iff.mp h
      unfold Answer.tidings? at ha
      split at ha
      · split at ha
        · cases ha
        · cases ha
          rfl
      · cases ha
      · split at ha <;> cases ha
      · cases ha
    | turn =>
      simp only [news?, arrival?] at h
      split at h
      · split at h <;> cases h
      · cases h
    | _ => cases h
  · cases h

/-- Builds fail when something happens. -/
lemma mem_failedBuilds {t : Duration} (h : t ∈ r.failedBuilds failed es) :
    t ∈ failed ∨ t ∈ es.filterMap Happening.now? := by
  induction es generalizing r failed with
  | nil => exact .inl h
  | cons e es ih =>
    rcases ih h with hold | hlater
    · cases hnews : r.tidings? e with
      | none =>
        rw [hnews] at hold
        exact .inl hold
      | some news =>
        rw [hnews] at hold
        cases news with
        | buildFailed now =>
          rcases List.mem_append.mp hold with hold | hnew
          · exact .inl hold
          · rw [List.mem_singleton.mp hnew]
            exact .inr (List.mem_filterMap.mpr ⟨e, List.mem_cons_self, now_of_tidings hnews⟩)
        | blockCommitted => cases hold
    · obtain ⟨e', he', hnow⟩ := List.mem_filterMap.mp hlater
      exact .inr (List.mem_filterMap.mpr ⟨e', List.mem_cons_of_mem _ he', hnow⟩)

/-- Whatever happens to a validator whose clock does not run backwards: the pause after the builds
that have failed since the last block was committed is over when a build is handed to the pipeline.
The pauses grow with the failures between their bounds, the policy waits for the one that is due,
and neither the milliseconds nor the pause leave the range of durations. -/
theorem backoff_respected (accepted : Config) (hvalid : accepted.validate = .ok ())
    (hfits : accepted.building.maxBackoff ≤ Duration.largest) (lastBlock : Duration) (r : Runner n)
    (hr : r.policy = { config := accepted.building, lastBlock }) (es : List Happening)
    (e : Happening) (htimes : ((es ++ [e]).filterMap Happening.now?).Pairwise (· ≤ ·)) :
    let c := accepted.building
    let failed := r.failedBuilds [] (es ++ [e])
    (∀ t, failed.getLast? = some t → (r.after es).SubmitsBuild e →
      ∃ now, e.now? = some now ∧ t.nanos + (c.pause failed.length).nanos ≤ now.nanos) ∧
    (r.after (es ++ [e])).policy.backoff = c.pause failed.length ∧
    ∀ j k, j ≤ k → c.minBackoff ≤ c.pause j ∧ c.pause j ≤ c.pause k ∧ c.pause k ≤ c.maxBackoff ∧
      Duration.ofMillis (BuildingConfig.doubled k) ≤ Duration.largest ∧
      c.pause k ≤ Duration.largest := by
  intro c failed
  have hstart : r.policy.Remembers c [] := by
    rw [hr]
    exact ⟨rfl, rfl, rfl⟩
  have hend : (r.after (es ++ [e])).policy.Remembers c failed := remembers_after hstart (es ++ [e])
  refine ⟨fun t ht hsubmits => ?waited, ?due, fun j k hjk => ?bounded⟩
  case waited =>
    obtain ⟨r', hstep, hmore⟩ := hsubmits
    have hquiet : (({ r.after es with effects := [] } : Runner n).kept e).builds =
        ((r.after es).kept e).builds := by
      cases e <;> rfl
    obtain ⟨now, hnow, hgo⟩ := (minds_step hstep).builds (by rwa [hquiet])
    have hnext : r.after (es ++ [e]) = r' := by
      have happend : r.after (es ++ [e]) = (r.after es).next e := by simp [after]
      rw [happend, next, hstep]
    rw [hnext] at hend
    refine ⟨now, hnow, hend.pause_over hfits ht ?_ hgo⟩
    -- The last failure is no later than what happens last.
    have hmem : t ∈ (es ++ [e]).filterMap Happening.now? := by
      rcases mem_failedBuilds (List.mem_of_getLast? ht) with hnil | hmem
      · cases hnil
      · exact hmem
    have hlast : (es ++ [e]).filterMap Happening.now? = es.filterMap Happening.now? ++ [now] := by
      simp [hnow]
    rw [hlast] at htimes hmem
    rcases List.mem_append.mp hmem with hbefore | hsame
    · exact (List.pairwise_append.mp htimes).2.2 t hbefore now (List.mem_singleton_self _)
    · rw [List.mem_singleton.mp hsame]
      exact Nat.le_refl _
  case due =>
    rw [BuildPolicy.backoff_eq (by rwa [hend.config]), hend.config, hend.failures]
  case bounded =>
    have hordered := Config.backoffs_ordered hvalid
    have hle := BuildingConfig.pause_le c k
    exact ⟨BuildingConfig.le_pause hordered j, BuildingConfig.pause_mono hjk, hle,
      BuildingConfig.doubled_le k, Nat.le_trans hle hfits⟩

/-- The build that is started at five seconds fails at once, and the next one waits for 22 ms. -/
theorem backoff_respected_after_failure :
    let r := start (validatorAt 1) .zero
    let es : List Happening := [.spoil 1 0, .push [1], .pump (.ofMillis 5000),
      .work (.ofMillis 5000), .finish (.ofMillis 5000) 0]
    r.failedBuilds [] es = [.ofMillis 5000] ∧
      (r.after es).SubmitsBuild (.pump (.ofMillis 5022)) ∧
      ¬(r.after es).SubmitsBuild (.pump (.ofMillis 5021)) := by
  intro r es
  have hfailed : r.failedBuilds [] es = [.ofMillis 5000] ∧
      r.failedBuilds [] (es ++ [.pump (.ofMillis 5021)]) = [.ofMillis 5000] := by
    decide +kernel
  refine ⟨hfailed.1, ⟨_, rfl, by decide +kernel⟩, fun hsubmits => ?_⟩
  obtain ⟨now, hnow, hover⟩ := (backoff_respected {} rfl (by decide) .zero r rfl es
    (.pump (.ofMillis 5021)) (by decide)).1 (.ofMillis 5000) (by rw [hfailed.2]; rfl) hsubmits
  rw [hfailed.2] at hover
  cases hnow
  revert hover
  decide

end Runner

end Conclave

import Conclave.Proofs.ExecutorConsistency

/-!
# Giving up a build

An executor that acted on the intent to build and then acts on another one raises a flag that asks
the engine to give up. It acts on nothing, however, while an operation is under way, and a build is
one. So the flag is down from the moment a build is handed to the pipeline until its answer is
applied: it comes up when there is nothing left to give up, and no build is ever broken off.
-/

namespace Conclave

variable {n : ℕ}

/-- Whether a build was broken off. -/
def Answer.brokenOff : Answer Task → Bool
  | ⟨.build, .error (.engine .forceStopped)⟩ => true
  | _ => false

lemma BuildPolicy.forceStop_shouldBuild (p : BuildPolicy) (queued : ℕ) (now : Duration) :
    (p.shouldBuild queued now).2.forceStop = p.forceStop := by
  unfold shouldBuild timeUp
  repeat' split
  all_goals rfl

/-! ### The engine -/

namespace Engine

/-- A request to give up that is seen before the block is full leaves the queue as it was. -/
lemma fill_of_stop {order : BuildOrder} {k : ℕ} (hstop : order.stop k = true)
    (hlimit : k < order.limit) {taken queue : List Bytes} (htaken : taken.length ≤ k)
    (hqueue : k ≤ taken.length + queue.length) :
    fill order taken queue = (none, taken ++ queue) := by
  induction queue generalizing taken with
  | nil =>
    have hk : taken.length = k := by simpa using Nat.le_antisymm htaken hqueue
    unfold fill
    rw [if_neg (by omega), if_pos (by rw [hk]; exact hstop)]
  | cons tx rest ih =>
    unfold fill
    rw [if_neg (by omega)]
    split
    · rfl
    · rename_i hgo
      have hne : taken.length ≠ k := fun hk => hgo (by rw [hk]; exact hstop)
      simp only [List.length_cons] at hqueue
      refine (ih ?_ ?_).trans ?_
      · simp only [List.length_append, List.length_singleton]
        omega
      · simp only [List.length_append, List.length_singleton]
        omega
      · simp

/-- A build gives up at the next transaction. -/
theorem build_of_stop {e : Engine n} {order : BuildOrder} {k : ℕ} (hstop : order.stop k = true)
    (hlimit : k < order.limit) (hqueue : k ≤ e.queue.size) (hopen : e.closed = false)
    (hfaults : e.failBuilds = 0) : e.build order = (.error .forceStopped, e) := by
  have hfill : fill order [] e.queue.txs = (none, [] ++ e.queue.txs) :=
    fill_of_stop hstop hlimit (Nat.zero_le k) (by simpa [TxQueue.size] using hqueue)
  have hclosed : ¬e.closed = true := by simp [hopen]
  have hfails : ¬0 < e.failBuilds := by omega
  unfold build
  rw [if_neg hclosed, if_neg hfails, hfill]
  rfl

lemma fill_of_go {order : BuildOrder} (hgo : ∀ k, order.stop k = false) (taken queue : List Bytes) :
    (fill order taken queue).1.isSome = true := by
  induction queue generalizing taken with
  | nil =>
    unfold fill
    split
    · rfl
    · simp [hgo]
  | cons tx rest ih =>
    unfold fill
    split
    · rfl
    · simp only [hgo, Bool.false_eq_true, if_false]
      exact ih _

lemma build_of_go {e : Engine n} {order : BuildOrder} (hgo : ∀ k, order.stop k = false) :
    (e.build order).1 ≠ .error .forceStopped := by
  unfold build
  split
  · simp
  split
  · simp
  · have hsome := fill_of_go hgo [] e.queue.txs
    split
    · rename_i hfill
      rw [hfill] at hsome
      cases hsome
    · simp

end Engine

lemma Worker.build_of_go {w : Worker (Engine n) (Builder n)} {order : BuildOrder}
    (hgo : ∀ k, order.stop k = false) : (w.build order).1 ≠ .error (.engine .forceStopped) := by
  have hbuild := Engine.build_of_go (e := w.abandon.engine) hgo
  unfold Worker.build
  simp only [Engine.build_def]
  split
  · rename_i cause engine he
    rw [he] at hbuild
    simpa using hbuild
  · simp

/-- Without a request to give up no build is broken off. -/
lemma Pipeline.not_brokenOff_of_next {p p' : Pipeline (Engine n) (Builder n) Task}
    {order : BuildOrder} {a : Answer Task} (h : p.next order = some (a, p'))
    (hgo : a.task = .build → ∀ k, order.stop k = false) : a.brokenOff = false := by
  obtain ⟨t, result⟩ := a
  cases t with
  | build =>
    have hresult : result ≠ .error (.engine .forceStopped) := by
      rcases Pipeline.next_worker h with ⟨-, hclosed⟩ | hrun
      · exact fun hstopped => by cases hclosed.symm.trans hstopped
      · have hbuild : p.worker.build order = (result, p'.worker) := hrun
        have hnever := Worker.build_of_go (w := p.worker) (hgo rfl)
        rw [hbuild] at hnever
        exact hnever
    unfold Answer.brokenOff
    split
    · rename_i he
      cases he
      exact absurd rfl hresult
    · rfl
  | _ => rfl

namespace Executor

variable {x y z : Executor n} {begun : Prop} {now : Duration} {t : Task} {a : Answer Task}
  {answers : List (Answer Task)}

/-- The flag is down while the executor acts on the intent to build, which it does as long as the
build is outstanding, and up otherwise once that has begun. -/
structure Sheltered (begun : Prop) (x : Executor n) : Prop where
  clear : x.previous = .buildBlock → x.policy.forceStop = false
  raised : begun → x.previous ≠ .buildBlock → x.policy.forceStop = true
  waits : x.previous = .buildBlock → x.intent = .doNothing
  building : x.previous = .buildBlock → x.busy = true → .build ∈ x.outstanding
  builds : .build ∈ x.outstanding → x.busy = true ∧ x.previous = .buildBlock
  unbroken : ∀ a ∈ x.answers, a.brokenOff = false

/-- From `x` to `y` no operation was started and none has ended, and the flag stayed. -/
structure Aside (x y : Executor n) : Prop where
  previous : y.previous = x.previous
  forceStop : y.policy.forceStop = x.policy.forceStop
  intent : y.intent = x.intent
  busy : y.busy = x.busy
  building : .build ∈ y.outstanding ↔ .build ∈ x.outstanding
  answers : ∀ a ∈ y.answers, a ∈ x.answers ∨ a.brokenOff = false

lemma Sheltered.aside (h : x.Sheltered begun) (hy : Aside x y) : y.Sheltered begun where
  clear hp := hy.forceStop.trans (h.clear (hy.previous ▸ hp))
  raised hb hp := hy.forceStop.trans (h.raised hb (hy.previous ▸ hp))
  waits hp := hy.intent.trans (h.waits (hy.previous ▸ hp))
  building hp hb := hy.building.mpr (h.building (hy.previous ▸ hp) (hy.busy ▸ hb))
  builds ho := by
    rw [hy.busy, hy.previous]
    exact h.builds (hy.building.mp ho)
  unbroken a ha := (hy.answers a ha).elim (h.unbroken a) id

lemma aside_books {manager : Manager n} {policy : BuildPolicy} {block : Option Block}
    {blockTime : Option Duration} {awaited : Bool} {effects : List Effect}
    (h : policy.forceStop = x.policy.forceStop) :
    Aside x { x with manager, policy, block, blockTime, awaited, effects } :=
  ⟨rfl, h, rfl, rfl, .rfl, fun _ ha => .inl ha⟩

lemma aside_shouldBuild (x : Executor n) (now : Duration) : Aside x (x.shouldBuild now).2 :=
  aside_books (BuildPolicy.forceStop_shouldBuild _ _ _)

lemma mem_outstanding_submit (x : Executor n) (t : Task) :
    .build ∈ (x.submit t).outstanding ↔ t = .build ∨ .build ∈ x.outstanding := by
  rw [(outstanding_submit x t).mem_iff, List.mem_cons, eq_comm]

lemma not_brokenOff_submit (x : Executor n) (t : Task) :
    ∀ a ∈ (x.submit t).answers, a ∈ x.answers ∨ a.brokenOff = false := fun a ha =>
  (mem_answers_submit ha).imp id fun hrefused => by
    rw [hrefused]
    cases t <;> rfl

lemma aside_submit (x : Executor n) (ht : t ≠ .build) : Aside x (x.submit t) where
  previous := rfl
  forceStop := rfl
  intent := rfl
  busy := rfl
  building := by simp [mem_outstanding_submit, ht]
  answers := not_brokenOff_submit x t

lemma queue_exit (p : Pipeline (Engine n) (Builder n) Task) : p.exit.queue = p.queue := by
  unfold Pipeline.exit
  split <;> rfl

lemma aside_exit (x : Executor n) : Aside x { x with pipeline := x.pipeline.exit } := by
  refine ⟨rfl, rfl, rfl, rfl, ?_, fun _ ha => .inl ha⟩
  unfold outstanding
  rw [queue_exit]

namespace Sheltered

lemma idle (h : x.Sheltered begun) (hidle : x.busy = false) : .build ∉ x.outstanding := fun ho => by
  rw [(h.builds ho).1] at hidle
  cases hidle

/-- An idle executor may turn to another intent. -/
lemma turn (h : x.Sheltered begun) (hidle : x.busy = false) {policy : BuildPolicy}
    {previous intent : Intent}
    (hclear : previous = .buildBlock → policy.forceStop = false ∧ intent = .doNothing)
    (hraised : begun → previous ≠ .buildBlock → policy.forceStop = true) :
    ({ x with policy, previous, intent } : Executor n).Sheltered begun where
  clear hp := (hclear hp).1
  raised := hraised
  waits hp := (hclear hp).2
  building _ hbusy := by
    rw [hidle] at hbusy
    cases hbusy
  builds ho := absurd ho (h.idle hidle)
  unbroken := h.unbroken

/-- An operation other than a build starts. -/
lemma start (h : x.Sheltered begun) (hidle : x.busy = false) (ht : t ≠ .build)
    (hp : x.previous ≠ .buildBlock) :
    ({ x with busy := true, intent := .doNothing }.submit t).Sheltered begun := by
  refine ⟨fun hb => absurd hb hp, h.raised, fun hb => absurd hb hp, fun hb => absurd hb hp,
    fun ho => ?_, fun a ha => ?_⟩
  · rcases (mem_outstanding_submit _ t).mp ho with rfl | hold
    · exact (ht rfl).elim
    · exact absurd hold (h.idle hidle)
  · exact (not_brokenOff_submit _ t a ha).elim (h.unbroken a) id

lemma start_build (h : x.Sheltered begun) (hp : x.previous = .buildBlock) :
    ({ x with busy := true, intent := .doNothing }.submit .build).Sheltered begun :=
  ⟨h.clear, h.raised, fun _ => rfl, fun _ _ => (mem_outstanding_submit _ _).mpr (.inl rfl),
    fun _ => ⟨rfl, hp⟩, fun a ha => (not_brokenOff_submit _ _ a ha).elim (h.unbroken a) id⟩

/-- Only an idle executor acts on an intent, and only then the flag moves. -/
lemma turns (h : x.Sheltered begun) (hidle : x.busy = false) (hturns : Turns x now y) :
    y.Sheltered begun := by
  -- Nothing is outstanding here, so the flag may come up, and what is acted on decides whether it
  -- stays up.
  have hleft : x.manager.intent ≠ .buildBlock → (x.turned x.policyAside).Sheltered begun := by
    intro hne
    refine h.turn hidle (absurd · hne) fun hb _ => ?_
    unfold policyAside
    split
    · rfl
    · rename_i hp
      exact h.raised hb hp
  have hcleared : x.manager.intent = .buildBlock →
      (x.turned (x.policy.setForceStop false)).Sheltered begun :=
    fun hbuild => h.turn hidle (fun _ => ⟨rfl, rfl⟩) fun _ hne => absurd hbuild hne
  cases hturns with
  | follow build =>
    have hturned := hleft build
    exact hturned.turn hidle (absurd · build) hturned.raised
  | commit intent =>
    have hne : x.manager.intent ≠ .buildBlock := by simp [intent]
    exact (hleft hne).start hidle (by simp) hne
  | missing intent => exact (hleft (by simp [intent])).aside (aside_books rfl)
  | pause intent => exact hcleared intent
  | rest intent => exact (hcleared intent).aside (aside_shouldBuild _ now)
  | build intent =>
    have hdue := (hcleared intent).aside (aside_shouldBuild _ now)
    exact hdue.start_build intent

lemma update (h : x.Sheltered begun) (now : Duration) : (x.update now).Sheltered begun := by
  cases hbusy : x.busy with
  | true => rwa [update_of_busy hbusy]
  | false => exact h.turns hbusy (turns_update hbusy now)

lemma pump (h : x.Sheltered begun) (now : Duration) : (x.pump now).Sheltered begun :=
  (h.aside (aside_books rfl) : (x.setTime now).Sheltered begun).update now

/-- A pump that finds the intent to build left raises the flag unless the build is outstanding. -/
lemma forceStop_pump_iff (h : x.Sheltered True) (hp : x.previous = .buildBlock)
    (hi : x.manager.intent ≠ .buildBlock) (now : Duration) :
    (x.pump now).policy.forceStop = true ↔ .build ∉ x.outstanding := by
  by_cases hbusy : x.busy = true
  · have hsame : x.pump now = x.setTime now := if_pos hbusy
    have hdown : (x.setTime now).policy.forceStop = false := h.clear hp
    rw [hsame, hdown]
    exact iff_of_false Bool.false_ne_true fun hno => hno (h.building hp hbusy)
  · have hidle : x.busy = false := by simpa using hbusy
    have hturned : (x.pump now).previous ≠ .buildBlock := by
      have hprevious : (x.pump now).previous = x.manager.intent :=
        (turns_update (x := x.setTime now) hidle now).previous
      rwa [hprevious]
    exact iff_of_true ((h.pump now).raised trivial hturned) (h.idle hidle)

end Sheltered

/-! ### Chores and results -/

/-- A task that is no operation is done with. -/
lemma aside_take (hperm : x.answers.Perm (a :: answers)) (hop : a.task.isOperation = false) :
    Aside x { x with answers } where
  previous := rfl
  forceStop := rfl
  intent := rfl
  busy := rfl
  building := by
    have hne : Task.build ≠ a.task := fun he => by
      rw [← he] at hop
      cases hop
    rw [(outstanding_conclude hperm).mem_iff, List.mem_cons, or_iff_right hne]
  answers c hc := .inl (hperm.mem_iff.mpr (List.mem_cons_of_mem a hc))

lemma aside_catchUp (x : Executor n) (committed : ℕ) (timestamp : Option ℕ) :
    Aside x (x.catchUp committed timestamp) := by
  simp only [catchUp]
  split
  · refine aside_books ?_
    split <;> rfl
  · exact aside_books rfl

namespace Sheltered

lemma chore (h : x.Sheltered begun) {c : Scope} (hchore : Chore c x y) : y.Sheltered begun := by
  cases hchore with
  | say | tell | wait => exact h.aside (aside_books rfl)
  | weigh now => exact h.aside (aside_shouldBuild x now)
  | ask t aside =>
    refine h.aside (aside_submit x ?_)
    rintro rfl
    cases aside
  | check => exact h.aside (aside_submit x (by simp))
  | take t block idle wanted =>
    -- A block is waited for, which is not so while the intent to build is acted on.
    have hfetching : x.intent ≠ .doNothing := by
      rcases block with ⟨b, rfl⟩ | ⟨b, height, rfl⟩ <;> simp [show x.intent = _ from wanted]
    refine h.start idle ?_ fun hp => hfetching (h.waits hp)
    rcases block with ⟨b, rfl⟩ | ⟨b, height, rfl⟩ <;> simp
  | act now _ idle => exact h.turns idle (turns_update idle now)
  | drop answered own => exact h.aside (aside_take answered (Task.aside_of_isFastSync own))
  | leave committed timestamp => exact h.aside (aside_catchUp x committed timestamp)
  | exit => exact h.aside (aside_exit x)
  | stop | supply => exact h.aside ⟨rfl, rfl, rfl, rfl, .rfl, fun _ ha => .inl ha⟩

lemma chores (h : x.Sheltered begun) {c : Scope} (hchores : Chores c x y) : y.Sheltered begun :=
  hchores.invariant (fun _ _ hchore hx => hx.chore hchore) h

/-- No build is left when an operation is over. -/
lemma take_operation (h : x.Sheltered begun) (hcount : x.underWay = x.busy.toNat)
    (hperm : x.answers.Perm (a :: answers)) (hop : a.task.isOperation = true) :
    ({ x with answers, busy := false } : Executor n).Sheltered begun := by
  have hle := Bool.toNat_le x.busy
  have hperm' := outstanding_conclude hperm
  unfold underWay at hcount
  rw [hperm'.countP_eq, List.countP_cons, if_pos hop] at hcount
  have hnone : ({ x with answers } : Executor n).outstanding.countP Task.isOperation = 0 := by
    omega
  have hover : .build ∉ ({ x with answers } : Executor n).outstanding := fun ho =>
    List.countP_eq_zero.mp hnone _ ho rfl
  exact ⟨h.clear, h.raised, h.waits, nofun, fun ho => absurd ho hover, fun c hc =>
    h.unbroken c (hperm.mem_iff.mpr (List.mem_cons_of_mem a hc))⟩

/-- The answer is taken out, and with an operation's the executor is idle. -/
lemma take (h : x.Sheltered begun) (hcount : x.underWay = x.busy.toNat)
    (hperm : x.answers.Perm (a :: answers)) :
    ({ x with answers, busy := !a.task.isOperation && x.busy } : Executor n).Sheltered begun := by
  cases hop : a.task.isOperation with
  | true => exact h.take_operation hcount hperm hop
  | false => exact h.aside (aside_take hperm hop)

end Sheltered

lemma Settles.aside (h : Settles x now a y) :
    Aside { x with busy := !a.task.isOperation && x.busy } y := by
  cases h with
  | nothing => exact aside_books rfl
  | failed => exact aside_books rfl
  | @report t reply input =>
    obtain ⟨policy, blockTime, hkeep, hflag⟩ := keep_eq
      { x with
        busy := !t.isOperation && x.busy
        manager := (x.manager.respond input).1 } t reply (x.manager.respond input).2
    rw [hkeep]
    exact aside_books hflag

lemma Sheltered.finish (h : x.Sheltered begun) (hcount : x.underWay = x.busy.toNat)
    (hperm : x.answers.Perm (a :: answers))
    (hf : ({ x with answers } : Executor n).finish now a = .ok y) : y.Sheltered begun := by
  obtain ⟨z₁, z, hfirst, hsettles, hchores, -⟩ :=
    finish_cases (c := .free (fun _ _ _ => True) True) (fun _ => trivial) trivial hf
  have htaken := h.take hcount hperm
  refine Sheltered.chores ?_ hchores
  rcases hfirst with rfl | rfl
  · exact htaken.aside hsettles.aside
  · have htime : ({ x with
        manager := x.manager.setTime now
        answers
        busy := !a.task.isOperation && x.busy } : Executor n).Sheltered begun :=
      htaken.aside (aside_books rfl)
    exact htime.aside hsettles.aside

/-- The pipeline does a job. No build is broken off, for the flag is down while it is there. -/
lemma Sheltered.work (h : x.Sheltered begun) {p : Pipeline (Engine n) (Builder n) Task}
    {effects : List Effect} (hnext : x.pipeline.next (x.policy.order now) = some (a, p)) :
    ({ x with pipeline := p, answers := x.answers ++ [a], effects } : Executor n).Sheltered
      begun := by
  have hunbroken : a.brokenOff = false := by
    refine Pipeline.not_brokenOff_of_next hnext fun ha k => ?_
    have hqueue := (Pipeline.next_cases hnext).1
    have ho : .build ∈ x.outstanding := by simp [outstanding, hqueue, ha]
    exact h.clear (h.builds ho).2
  refine h.aside ⟨rfl, rfl, rfl, rfl, (outstanding_next hnext effects).mem_iff, fun c hc => ?_⟩
  exact (List.mem_append.mp hc).imp id fun hlast => by rwa [List.mem_singleton.mp hlast]

end Executor

open Executor (Sheltered aside_books)

namespace Runner

variable {r r' : Runner n} {begun : Prop}

lemma sheltered_step (h : r.Sheltered begun) (hcount : r.underWay = r.busy.toNat) {e : Happening}
    (hr : r.step e = .ok r') : r'.Sheltered begun := by
  have hsteps : Steps (.free (fun _ _ _ => True) True) r e r' :=
    steps_of_step (fun _ => trivial) (fun _ _ => trivial) (attentive_true r)
      (fun _ _ _ _ => trivial) (fun _ => trivial) (fun _ _ _ _ _ _ => trivial) hr
  cases hsteps with
  | chores chores => exact h.chores chores
  | work next => exact h.work next
  | finish answered applied =>
    obtain ⟨hlt, rfl⟩ := List.getElem?_eq_some_iff.mp answered
    exact h.finish hcount (List.getElem_cons_eraseIdx_perm hlt).symm applied

/-! ### Whole runs -/

lemma sheltered_next (h : r.Sheltered begun) (hcount : r.underWay = r.busy.toNat) (e : Happening) :
    (r.next e).Sheltered begun := by
  have hquiet : ({ r with effects := [] } : Runner n).Sheltered begun := h.aside (aside_books rfl)
  unfold next
  split
  · rename_i hstep
    exact sheltered_step hquiet hcount hstep
  · exact hquiet

lemma sheltered_trail {es : List Happening} (h : r.Sheltered begun)
    (ho : ∀ x ∈ r.trail es, x.toExecutor.Orderly) : ∀ x ∈ r.trail es, x.Sheltered begun := by
  induction es generalizing r with
  | nil =>
    intro x hx
    rw [List.mem_singleton.mp hx]
    exact h
  | cons e es ih =>
    intro x hx
    rcases mem_trail_cons.mp hx with rfl | hx
    · exact h
    · exact ih (sheltered_next h (ho r (mem_trail_self r _)).count e)
        (fun y hy => ho y (mem_trail_cons.mpr (.inr hy))) x hx

variable {v : Validator n} {config : Config} {me : Fin n} {height wallMillis : ℕ}
  {policy : BuildPolicy} {engine : Engine n} {es : List Happening}

lemma sheltered_start (hv : v.toExecutor =
      { manager := .start config me height wallMillis, policy,
        pipeline := ⟨⟨engine, none⟩, [], false, false, 0⟩ }) (time : Duration) :
    (start v time).Sheltered False := by
  have hfresh : v.Sheltered False := by
    rw [hv]
    exact ⟨nofun, nofun, nofun, nofun, nofun, nofun⟩
  exact hfresh.aside (aside_books rfl)

/-- Once the executor acts on the intent to build, the flag is up exactly while it acts on another
one. -/
lemma forceStop_iff_of_mem_trail {x y : Runner n} (h : x.Sheltered False)
    (ho : x.toExecutor.Orderly) (hp : x.previous = .buildBlock) (hy : y ∈ x.trail es) :
    y.policy.forceStop = true ↔ y.previous ≠ .buildBlock := by
  have hbegun : x.Sheltered True :=
    ⟨h.clear, fun _ hne => absurd hp hne, h.waits, h.building, h.builds, h.unbroken⟩
  have horderly : ∀ z ∈ x.trail es, z.toExecutor.Orderly :=
    stirs_invariant (attentive_true x) (fun _ _ _ _ => trivial) (fun _ _ _ => trivial)
      (fun _ _ hstirs hz => hz.stirs hstirs) ho
  have hsheltered := sheltered_trail hbegun horderly y hy
  refine ⟨fun hf hb => ?_, hsheltered.raised trivial⟩
  rw [hsheltered.clear hb] at hf
  cases hf

/-- Whatever happens to a validator: a pump that finds the intent to build left raises the flag
unless the build is outstanding; once the intent to build is acted on, the flag is up exactly while
another one is acted on; and as long as a build is outstanding, from its submission on, the flag is
down, so that no build is ever broken off, although the engine would give up at its next transaction
if it saw the flag. -/
theorem forceStop_raised_iff (hv : v.toExecutor =
      { manager := .start config me height wallMillis, policy,
        pipeline := ⟨⟨engine, none⟩, [], false, false, 0⟩ }) (time : Duration) :
    ∀ x ∈ (start v time).trail es,
      (∀ now, x.previous = .buildBlock → x.manager.intent ≠ .buildBlock →
        ((x.next (.pump now)).policy.forceStop = true ↔ .build ∉ x.outstanding)) ∧
      (x.previous = .buildBlock → ∀ es', ∀ y ∈ x.trail es',
        (y.policy.forceStop = true ↔ y.previous ≠ .buildBlock)) ∧
      (.build ∈ x.outstanding → x.policy.forceStop = false) ∧
      (∀ a ∈ x.answers, a.brokenOff = false) ∧
      (x.policy.forceStop = true → 0 < x.policy.config.maxTransactions →
        x.engine.closed = false → x.engine.failBuilds = 0 → ∀ now,
          x.engine.build (x.policy.order now) = (.error .forceStopped, x.engine)) := by
  intro x hx
  have horderly : ∀ x ∈ (start v time).trail es, x.toExecutor.Orderly :=
    orderly_of_mem_trail hv time
  have hsheltered := sheltered_trail (sheltered_start hv time) horderly x hx
  refine ⟨fun now hp hi => ?pumped, fun hp es' y hy => ?later, fun ho => ?submitted,
    hsheltered.unbroken, fun hf hlimit hopen hfaults now => ?seen⟩
  case pumped =>
    have hquiet : ({ x with effects := [] } : Runner n).Sheltered True :=
      ⟨hsheltered.clear, fun _ hne => absurd hp hne, hsheltered.waits, hsheltered.building,
        hsheltered.builds, hsheltered.unbroken⟩
    exact hquiet.forceStop_pump_iff hp hi now
  case later => exact forceStop_iff_of_mem_trail hsheltered (horderly x hx) hp hy
  case submitted => exact hsheltered.clear (hsheltered.builds ho).2
  case seen => exact Engine.build_of_stop (k := 0) hf hlimit (Nat.zero_le _) hopen hfaults

/-- One of four validators. The primary of the first height is validator 1. -/
def validatorAt (me : Fin 4) : Validator 4 :=
  let policy : BuildPolicy := { config := {}, lastBlock := .zero }
  { exampleValidator with toExecutor := .fresh {} me 0 policy { me, keys := exampleKeys } }

/-- The intent to build is left because the others are ahead. -/
def overtaking : List Happening :=
  [0, 2, 3].map fun i => .message .zero i (.status ⟨5, 1, 0, .waitBlock, none, false⟩)

/-- No block is due when the intent to build is left, so the flag comes up with the next pump. -/
theorem forceStop_raised_iff_idle :
    ∃ x ∈ ((start (validatorAt 1) .zero).trail ([.pump .zero] ++ overtaking)).getLast?,
      .build ∉ x.outstanding ∧ x.policy.forceStop = false ∧
        (x.next (.pump .zero)).policy.forceStop = true := by
  have hv : (validatorAt 1).toExecutor =
    { manager := .start {} 1 1 0, policy := { config := {}, lastBlock := .zero },
      pipeline := ⟨⟨{ me := 1, keys := exampleKeys }, none⟩, [], false, false, 0⟩ } := rfl
  have hlast : ∃ x ∈ ((start (validatorAt 1) .zero).trail ([.pump .zero] ++ overtaking)).getLast?,
      x.previous = .buildBlock ∧ x.manager.intent ≠ .buildBlock ∧ .build ∉ x.outstanding ∧
        x.policy.forceStop = false := by
    decide +kernel
  obtain ⟨x, hx, hp, hi, ho, hdown⟩ := hlast
  have hpumped := (forceStop_raised_iff hv .zero x (List.mem_of_getLast? hx)).1 .zero hp hi
  exact ⟨x, hx, ho, hdown, hpumped.mpr ho⟩

/-- Every pump that finds the intent to build left raises the flag. -/
def PumpsRaiseFlag (trail : List (Runner n)) : Prop :=
  ∀ x ∈ trail, ∀ now, x.previous = .buildBlock → x.manager.intent ≠ .buildBlock →
    (x.next (.pump now)).policy.forceStop = true

/-- A block is due, and its build still waits in the queue when the intent to build is left. -/
theorem queued_build_goes_on :
    ¬PumpsRaiseFlag ((start (validatorAt 1) .zero).trail
      ([.push [1], .pump (.ofMillis 5000)] ++ overtaking)) := by
  have hlast : ∃ x ∈ ((start (validatorAt 1) .zero).trail
      ([.push [1], .pump (.ofMillis 5000)] ++ overtaking)).getLast?,
        x.previous = .buildBlock ∧ x.manager.intent ≠ .buildBlock ∧ x.pipeline.queue = [.build] ∧
          (x.next (.pump (.ofMillis 5000))).policy.forceStop = false := by
    decide +kernel
  obtain ⟨x, hx, hp, hi, -, hdown⟩ := hlast
  intro hraises
  rw [hraises x (List.mem_of_getLast? hx) _ hp hi] at hdown
  cases hdown

end Runner

end Conclave

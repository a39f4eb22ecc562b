import Conclave.Proofs.ExecutorConsistency

/-!
# Manager and chain in lockstep

Outside fast sync the own height is the one after the chain, but for the time between a block that
an operation has added to the chain and the answer that tells the manager so. That answer is never
turned down.
-/

namespace Conclave

variable {n : ℕ}

/-- Whether an operation has added a block to the chain. -/
def Answer.grows : Answer Task → Bool
  | ⟨.add .., .ok _⟩ | ⟨.commit .., .ok _⟩ => true
  | _ => false

namespace Executor

variable {x y : Executor n} {a : Answer Task} {answers : List (Answer Task)} {now : Duration}

/-! ### What an operation leaves to the manager -/

/-- The manager responds, unless a counter overflows. -/
lemma tell_cases (x : Executor n) (input : Manager.Input) :
    x.tell input = .error .counterOverflow ∨ x.tell input =
      .ok ({ x with manager := (x.manager.respond input).1 }, (x.manager.respond input).2) := by
  simp only [tell, Manager.handle]
  split
  · exact .inr rfl
  · exact .inl rfl

/-- The manager is told of a block that was added to the chain below the last height that there
is. -/
lemma succeed_grown (x : Executor n) (now : Duration) {t : Task} {reply : t.job.Reply}
    (hgrows : (⟨t, .ok reply⟩ : Answer Task).grows = true) :
    x.succeed now t reply = .error .counterOverflow ∨ ∃ y, x.succeed now t reply = .ok y ∧
      (∀ b, t ≠ .add b Word.maxUnsigned) ∧
        ∃ input, t.report? reply = some input ∧ y.manager = (x.manager.respond input).1 := by
  cases t with
  | add b height =>
    simp only [succeed]
    split
    · exact .inl rfl
    rename_i hlast
    have hbelow : ∀ b', Task.add b height ≠ .add b' Word.maxUnsigned := fun b' heq =>
      hlast (by cases heq; rfl)
    rcases x.tell_cases (.heightAdvance (height + 1)) with htell | htell <;> rw [htell]
    · exact .inl rfl
    · refine .inr ⟨_, rfl, hbelow, _, rfl, ?_⟩
      split <;> rfl
  | commit b signatures =>
    simp only [succeed]
    rcases (x.note .blockCommitted).tell_cases (.committed b.rid) with htell | htell <;> rw [htell]
    · exact .inl rfl
    · exact .inr ⟨_, rfl, by simp, _, rfl, rfl⟩
  | build | load | verify | serveBlock | serveSignature | chainHeight | fastAdd => cases hgrows

lemma isOperation_of_grows (h : a.grows = true) : a.task.isOperation = true := by
  obtain ⟨t, result⟩ := a
  cases t <;> first | rfl | cases h

/-! ### Lockstep -/

/-- The own height is the one after the chain, or else the one of its last block. -/
lemma Aligned.chain_height (h : x.Aligned) :
    x.chain.height + 1 = x.manager.own.height ∨ x.chain.height = x.manager.own.height := by
  by_cases hlevel : x.Level
  · exact .inl hlevel.symm
  · right
    obtain ⟨t, reply, -, hout, ⟨b, height, rfl⟩ | ⟨b, signatures, rfl⟩⟩ := h.exists_grown hlevel
    · exact hout.2.2
    · exact hout.2.1

/-- The manager applies what the answer of a successful commit or add reports. -/
lemma Aligned.respond_of_grows (h : x.Aligned) (ha : a ∈ x.answers) (hgrows : a.grows = true)
    (hlast : ∀ b, a.task ≠ .add b Word.maxUnsigned) (now : Duration) {input : Manager.Input}
    (hinput : a.report? = some input) :
    (x.manager.setTime now).respond input = ((x.manager.setTime now).advanceHeight, true) := by
  have hout := h.answered a ha
  obtain ⟨t, result⟩ := a
  cases result with
  | error cause => cases t <;> cases hgrows
  | ok reply =>
    cases t with
    | add b height =>
      obtain ⟨-, rfl, -⟩ := hout
      cases hinput
      refine Manager.respond_heightAdvance (m := x.manager.setTime now) (lt_of_le_of_ne h.inRange ?_)
      exact fun heq => hlast b (congrArg _ heq)
    | commit b signatures =>
      obtain ⟨hprepared, -, -⟩ := hout
      cases hinput
      exact Manager.respond_committed (m := x.manager.setTime now) hprepared.2
    | build | load | verify | serveBlock | serveSignature | chainHeight | fastAdd => cases hgrows

/-- The manager accepts what the answer reports to it. -/
def Accepts (x : Executor n) (now : Duration) (a : Answer Task) : Prop :=
  ∃ input, a.report? = some input ∧ ((x.manager.setTime now).respond input).2 = true

/-- The answer of a successful commit or add takes the manager to the next height. -/
lemma Aligned.finish_grown (h : x.Aligned) (hperm : x.answers.Perm (a :: answers))
    (hgrows : a.grows = true) (now : Duration) :
    ({ x with answers } : Executor n).finish now a = .error .counterOverflow ∨
      ∃ y, ({ x with answers } : Executor n).finish now a = .ok y ∧ x.Accepts now a ∧
        y.manager.own.height = x.manager.own.height + 1 := by
  have hop : a.task.isOperation = true := isOperation_of_grows hgrows
  have ha : a ∈ x.answers := hperm.mem_iff.mpr List.mem_cons_self
  obtain ⟨t, result⟩ := a
  change t.isOperation = true at hop
  simp only [Executor.finish, hop, if_true]
  cases result with
  | error cause => cases t <;> cases hgrows
  | ok reply =>
    simp only
    rcases succeed_grown (({ x with answers } : Executor n).setTime now) now hgrows with
      hsucceed | ⟨z, hsucceed, hlast, input, hinput, hmanager⟩
    · rw [hsucceed]
      exact .inl rfl
    · have happly := h.respond_of_grows ha hgrows hlast now hinput
      rw [hsucceed]
      refine .inr ⟨_, rfl, ⟨input, hinput, by rw [happly]⟩, ?_⟩
      rw [manager_release, hmanager]
      have hm : ({ x with answers }.setTime now).manager.respond input = _ := happly
      rw [hm]
      exact Manager.height_advanceHeight _

end Executor

namespace Runner

variable {v : Validator n} {config : Config} {me : Fin n} {wallMillis : ℕ} {policy : BuildPolicy}
  {engine : Engine n} {es : List Happening}

/-- In every run without fast sync, whatever the peers say and whenever tasks are done or fail, the
own height is the one after the chain while no operation is under way, and while one is, the chain
may be at the own height already. The answer of a successful commit or add is never turned down: it
takes the manager to the next height, unless a counter has come to the end of its word. -/
theorem heights_in_lockstep (hv : v.toExecutor = .fresh config me wallMillis policy engine)
    (hchain : engine.chain.Sound) (hrange : engine.chain.height < Word.maxUnsigned)
    (time : Duration) (hs : ∀ x ∈ (start v time).trail es, x.inConsensus = true) :
    ∀ x ∈ (start v time).trail es,
      (x.underWay = 0 → x.manager.own.height = x.chain.height + 1) ∧
      (0 < x.underWay →
        x.chain.height + 1 = x.manager.own.height ∨ x.chain.height = x.manager.own.height) ∧
      ∀ (i : ℕ) (a : Answer Task), x.answers[i]? = some a → a.grows = true → ∀ now,
        { x.toExecutor with answers := x.answers.eraseIdx i }.finish now a =
            .error .counterOverflow ∨
          ∃ y, { x.toExecutor with answers := x.answers.eraseIdx i }.finish now a = .ok y ∧
            x.Accepts now a ∧ y.manager.own.height = x.manager.own.height + 1 := by
  intro x hx
  have h := (aligned_of_mem_trail (aligned_start hv hchain hrange time) hs x hx).1
  refine ⟨fun hidle => ?_, fun _ => h.chain_height, fun i a hi hgrows now => ?_⟩
  · rw [Executor.underWay_eq, h.count] at hidle
    exact h.level (Bool.toNat_eq_zero.mp hidle)
  · obtain ⟨hlt, rfl⟩ := List.getElem?_eq_some_iff.mp hi
    exact h.finish_grown (List.getElem_cons_eraseIdx_perm hlt).symm hgrows now

/-- A block is committed, and the manager goes on to the next height with the answer. -/
theorem heights_in_lockstep_committed :
    let trail := (start exampleValidator .zero).trail committingRun
    (∀ x ∈ trail, x.underWay = 0 → x.manager.own.height = x.chain.height + 1) ∧
      (∃ x ∈ trail, x.underWay = 1 ∧ x.chain.height = x.manager.own.height) ∧
      ∃ x ∈ trail, x.underWay = 0 ∧ x.chain.height = 1 := by
  intro trail
  have hv : exampleValidator.toExecutor =
    .fresh {} 0 0 { config := {}, lastBlock := .zero } { me := 0, keys := exampleKeys } := rfl
  have hs : ∀ x ∈ (start exampleValidator .zero).trail committingRun, x.inConsensus = true := by
    decide +kernel
  have hall := heights_in_lockstep hv Chain.sound_empty (by decide) .zero hs
  have hgrown : ∃ x ∈ trail, x.underWay = 1 ∧ x.chain.height = x.manager.own.height := by
    decide +kernel
  have hdone : ∃ x ∈ trail, x.underWay = 0 ∧ x.chain.height = 1 := by decide +kernel
  exact ⟨fun x hx => (hall x hx).1, hgrown, hdone⟩

end Runner

end Conclave

import Conclave.Proofs.ExecutorPulses

/-!
# The beats of an executor

Where it does not matter which block is at hand, the pulses of an executor and the work of its
pipeline are steps of one relation: the beats. What every beat preserves holds along every run.
-/

namespace Conclave

variable {n : ℕ}

namespace Executor

variable {x y : Executor n} {heard : ℕ → Rid → Signature → Prop} {fast : Prop}

/-- One change of an executor; `heard` are the commit signatures that peers have sent. -/
inductive Beat (heard : ℕ → Rid → Signature → Prop) (x : Executor n) : Executor n → Prop
  /-- Its books, the block that it would hand out included. -/
  | books {policy : BuildPolicy} {previous : Intent} {block : Option Block}
      {blockTime : Option Duration} {awaited : Bool} {effects : List Effect} :
      Beat heard x { x with policy, previous, block, blockTime, awaited, effects }
  | rest : Beat heard x { x with intent := .doNothing }
  /-- The manager's intent becomes its own. -/
  | follow (idle : x.busy = false) : Beat heard x { x with intent := x.manager.intent }
  | tell (input : Manager.Input) (plain : input.isPlain = true) :
      Beat heard x { x with manager := (x.manager.respond input).1 }
  /-- A task that is no operation. -/
  | ask (t : Task) (aside : t.isOperation = false)
      (other : ∀ sender rid s, t ≠ .verify sender rid s) : Beat heard x (x.submit t)
  | check (sender : ℕ) (rid : Rid) (s : Signature) (prepared : x.manager.PreparedOn rid)
      (sent : heard sender rid s) : Beat heard x (x.submit (.verify sender rid s))
  | operate (t : Task) (operation : t.isOperation = true) (idle : x.busy = false)
      (wanted : x.Wants t) :
      Beat heard x ({ x with busy := true, intent := .doNothing }.submit t)
  | work {order : BuildOrder} {a : Answer Task} {p : Pipeline (Engine n) (Builder n) Task}
      (next : x.pipeline.next order = some (a, p)) :
      Beat heard x { x with pipeline := p, answers := x.answers ++ [a] }
  | exit : Beat heard x { x with pipeline := x.pipeline.exit }
  | stop : Beat heard x { x with pipeline := x.pipeline.stop }
  /-- The queue of transactions and the faults to come. -/
  | supply (queue : TxQueue) (failBuilds failLoads : ℕ) :
      Beat heard x (x.modifyEngine ({ · with queue, failBuilds, failLoads }))
  /-- An answer is applied; an operation is over with it. -/
  | conclude {a : Answer Task} {answers : List (Answer Task)} {manager : Manager n}
      (answered : x.answers.Perm (a :: answers))
      (told : manager = x.manager ∨
        ∃ input, a.report? = some input ∧ manager = (x.manager.respond input).1) :
      Beat heard x { x with manager, answers, busy := !a.task.isOperation && x.busy }

/-- `y` comes after `x`. -/
abbrev Beats (heard : ℕ → Rid → Signature → Prop) (x y : Executor n) : Prop :=
  Relation.ReflTransGen (Beat heard) x y

/-- What every beat preserves holds later too. -/
theorem Beats.invariant {P : Executor n → Prop} (h : Beats heard x y)
    (hbeat : ∀ x y, Beat heard x y → P x → P y) (hx : P x) : P y := by
  induction h with
  | refl => exact hx
  | tail _ hbc ih => exact hbeat _ _ hbc ih

lemma beats_books {policy : BuildPolicy} {previous : Intent} {block : Option Block}
    {blockTime : Option Duration} {awaited : Bool} {effects : List Effect} :
    Beats heard x { x with policy, previous, block, blockTime, awaited, effects } :=
  .single .books

/-- A pulse is a beat, after which the block at hand may be another one. -/
lemma Pulse.beats (h : Pulse heard fast x y) : Beats heard x y := by
  cases h with
  | books => exact beats_books
  | rest => exact .single .rest
  | follow idle => exact .single (.follow idle)
  | tell input plain => exact .single (.tell input plain)
  | ask t aside other => exact .single (.ask t aside other)
  | check sender rid s prepared sent => exact .single (.check sender rid s prepared sent)
  | operate t operation idle wanted => exact .single (.operate t operation idle wanted)
  | exit => exact .single .exit
  | stop => exact .single .stop
  | supply queue failBuilds failLoads => exact .single (.supply queue failBuilds failLoads)
  | conclude answered told =>
    cases told with
    | nothing silent => exact .single (.conclude answered (.inl rfl))
    | report said =>
      have hreport : Beats heard x _ := .single (.conclude answered (.inr ⟨_, said, rfl⟩))
      exact hreport.trans beats_books
  | leave committed =>
    have htold : Beats heard x _ := .single (.tell (.fastForward committed) rfl)
    exact htold.trans beats_books

lemma Stirs.beats (h : Stirs heard fast x y) : Beats heard x y := by
  cases h with
  | pulses h => exact h.invariant (fun _ _ hpulse hx => hx.trans hpulse.beats) .refl
  | work next =>
    have hwork : Beats heard x _ := .single (.work next)
    exact hwork.trans beats_books

end Executor

namespace Runner

variable {r : Runner n} {heard : ℕ → Rid → Signature → Prop} {es : List Happening}

/-- Along a run the executor goes from beat to beat, and what it checks is what peers have sent. -/
theorem beats_trail (hin : r.Attentive heard)
    (hes : ∀ sender rid s, Heard es sender rid s → heard sender rid s) :
    ∀ x ∈ r.trail es, Executor.Beats heard r.toExecutor x.toExecutor := by
  have hfast : ∀ x ∈ r.trail es, x.inConsensus = false → True := fun _ _ _ => trivial
  exact stirs_invariant hin hes hfast (fun _ _ hstirs hx => hx.trans hstirs.beats) .refl

end Runner

end Conclave

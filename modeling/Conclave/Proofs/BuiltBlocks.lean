import Conclave.Proofs.ChainIntegrity
import Conclave.Proofs.QueueRefinement

/-!
# Blocks that one validator builds and another loads

The engine that builds a block fills in height, parent and reference; the engine that loads it
checks them. They agree whenever their chains end alike. What the builder does not look at is the
transactions that it takes from its queue: an empty one makes a block that nobody else loads.
-/

namespace Conclave

variable {n : ℕ}

namespace Engine

variable {e e' : Engine n} {builder : Builder n} {order : BuildOrder} {b : Block}

/-! ### Loading -/

/-- A block that fits the chain and refers to its own contents is refused for an empty transaction
only. -/
lemma checkBlock_of_extends (hextends : e.chain.checkExtends b.header = .ok ())
    (hcontents : b.contentRid = b.rid) :
    e.checkBlock b =
      if [] ∈ b.transactions then .error (.badData .emptyTransaction) else .ok () := by
  have hempty : b.transactions.any List.isEmpty = true ↔ [] ∈ b.transactions := by simp
  unfold checkBlock
  rw [hextends, if_neg (not_not_intro hcontents), if_congr hempty rfl rfl]
  rfl

/-- An open engine without faults changes nothing when it loads a block. -/
lemma load_of_extends (hopen : e.closed = false) (hfaults : e.failLoads = 0)
    (hextends : e.chain.checkExtends b.header = .ok ()) (hcontents : b.contentRid = b.rid) :
    e.load b = (if [] ∈ b.transactions then .error (.badData .emptyTransaction)
      else .ok (e.builder b), e) := by
  unfold load
  rw [if_neg (by simp [hopen]), if_neg (by simp [hfaults]),
    checkBlock_of_extends hextends hcontents]
  split <;> rfl

/-! ### Building -/

/-- What may come next depends on where a chain ends only. -/
lemma checkExtends_congr {c c' : Chain} (hheight : c'.height = c.height)
    (hlast : c'.lastRid = c.lastRid) (h : Header) : c'.checkExtends h = c.checkExtends h := by
  unfold Chain.checkExtends
  rw [hheight, hlast]

lemma prefix_of_build (h : (e.build order).1 = .ok builder) :
    builder.block.transactions <+: e.queue.txs := by
  rcases Worker.engine_build e order with ⟨⟨cause, herror⟩, -⟩ | ⟨builder', hok, -, -, hqueue⟩
  · rw [h] at herror
    cases herror
  · rw [h] at hok
    cases hok
    exact ⟨_, hqueue⟩

/-- What one engine builds, every open engine without faults loads whose chain ends alike, unless
the block includes an empty transaction; then it refuses the block for that. Both sign the same
reference. The transactions come from the front of the builder's queue, so with no empty transaction
there the block is loaded. -/
theorem load_built (hbuild : (e.build order).1 = .ok builder) (hopen : e'.closed = false)
    (hfaults : e'.failLoads = 0) (hkeys : e'.keys = e.keys)
    (hheight : e'.chain.height = e.chain.height) (hlast : e'.chain.lastRid = e.chain.lastRid) :
    builder.block.transactions <+: e.queue.txs ∧
      builder.signature = (e.keys.get e.me).sign builder.block.rid ∧
      ([] ∉ builder.block.transactions → ∃ loaded, e'.load builder.block = (.ok loaded, e') ∧
        loaded.block = builder.block ∧
        loaded.signature = (e.keys.get e'.me).sign builder.block.rid) ∧
      ([] ∈ builder.block.transactions →
        e'.load builder.block = (.error (.badData .emptyTransaction), e')) := by
  have hmade := made_of_build ⟨rfl, rfl⟩ hbuild
  have hextends : e'.chain.checkExtends builder.block.header = .ok () := by
    rw [checkExtends_congr hheight hlast]
    exact build_eq_ok hbuild
  have hload := load_of_extends hopen hfaults hextends hmade.contents
  refine ⟨prefix_of_build hbuild, hmade.signature, fun hfull => ?_, fun hempty => ?_⟩
  · rw [if_neg hfull] at hload
    refine ⟨_, hload, rfl, ?_⟩
    rw [← hkeys]
    rfl
  · rw [if_pos hempty] at hload
    exact hload

/-- Validator 1 of four loads what validator 0 builds. -/
theorem load_built_next :
    let e : Engine 4 := { me := 0, keys := .ofSeed 4 0, queue := ⟨[[7], [8, 9]]⟩ }
    let e' : Engine 4 := { me := 1, keys := .ofSeed 4 0 }
    ∃ builder, (e.build ⟨10, fun _ => false, 5000⟩).1 = .ok builder ∧
      builder.block.transactions = [[7], [8, 9]] ∧
      ∃ loaded, e'.load builder.block = (.ok loaded, e') ∧ loaded.block = builder.block := by
  intro e e'
  have hbuild : (e.build ⟨10, fun _ => false, 5000⟩).1 =
    .ok (e.builder (e.nextBlock 5000 [[7], [8, 9]])) := rfl
  obtain ⟨-, -, hfull, -⟩ := load_built hbuild (show e'.closed = false from rfl) rfl rfl rfl rfl
  obtain ⟨loaded, hload, hblock, -⟩ := hfull (by decide)
  exact ⟨_, hbuild, rfl, loaded, hload, hblock⟩

/-- With an empty transaction at the front of its queue, a validator builds a block that the others
refuse, though their chains end alike. -/
theorem built_not_loaded :
    ¬∀ (e e' : Engine 4) (order : BuildOrder) (builder : Builder 4),
      (e.build order).1 = .ok builder → e'.closed = false → e'.failLoads = 0 →
      e'.keys = e.keys → e'.chain.height = e.chain.height → e'.chain.lastRid = e.chain.lastRid →
      ∃ loaded, (e'.load builder.block).1 = .ok loaded := by
  intro hall
  let e : Engine 4 := { me := 0, keys := .ofSeed 4 0, queue := ⟨[[]]⟩ }
  let e' : Engine 4 := { me := 1, keys := .ofSeed 4 0 }
  let order : BuildOrder := ⟨10, fun _ => false, 5000⟩
  have hextends : e'.chain.checkExtends (e.nextBlock 5000 [[]]).header = .ok () := rfl
  have hrefused : (e'.load (e.nextBlock 5000 [[]])).1 = .error (.badData .emptyTransaction) := by
    rw [load_of_extends rfl rfl hextends rfl]
    rfl
  obtain ⟨loaded, hloaded⟩ := hall e e' order _ rfl rfl rfl rfl rfl rfl
  have hsame : (e'.load (e.nextBlock 5000 [[]])).1 = .ok loaded := hloaded
  rw [hrefused] at hsame
  cases hsame

end Engine

end Conclave

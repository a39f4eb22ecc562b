import Conclave.Manager.Input

/-!
Patience with a primary: how long each round may last, and when to start revolting.
-/

namespace Conclave

/-- The growth of the extra delay from one round to the next. -/
def RevoltConfig.growth : Float := 1.2

/-- What round `round` gets on top of the timeout: `base * growth ^ round - base`, in whole
milliseconds and capped at `delayMax`. -/
def RevoltConfig.delay (c : RevoltConfig) (round : Nat) : Duration :=
  let base := Float.ofNat c.delayBase.millis
  let max := Float.ofNat c.delayMax.millis
  if base ≤ 0 then .zero
  else
    let capRound := ((max / base).log / growth.log).floor
    if Float.ofNat round ≥ capRound then c.delayMax
    else .ofMillis (base * growth ^ Float.ofNat round - base).toUInt64.toNat

/-- Watches the own height and round against a deadline. -/
structure RevoltTracker where
  config : RevoltConfig
  deadline : Duration
  height : Nat
  round : Nat

namespace RevoltTracker

def resetDeadline (t : RevoltTracker) (round : Nat) (now : Duration) :
    Except Fault RevoltTracker := do
  let deadline ← (← now.add t.config.timeout).add (t.config.delay round)
  return { t with deadline }

def start (config : RevoltConfig) (s : NodeStatus) (now : Duration) : Except Fault RevoltTracker :=
  resetDeadline ⟨config, .zero, s.height, s.round⟩ s.round now

/-- A new height or round gets a new deadline, and so does a time with nothing to build. -/
def refresh (t : RevoltTracker) (s : NodeStatus) (shouldBuild : Bool) (now : Duration) :
    Except Fault RevoltTracker := do
  let t ←
    if s.height ≠ t.height ∨ s.round ≠ t.round then
      resetDeadline { t with height := s.height, round := s.round } s.round now
    else pure t
  if shouldBuild then return t else t.resetDeadline s.round now

/-- Whether the primary, last heard at `lastHeard`, has been silent for too long. -/
def tooSilent (t : RevoltTracker) (s : NodeStatus) (isPrimary : Bool)
    (lastHeard : Option Duration) (now : Duration) : Bool :=
  match t.config.fastTimeout with
  | none => false
  | some limit => ¬isPrimary ∧ s.height > 0 ∧ limit < now.since (lastHeard.getD .zero)

def due (t : RevoltTracker) (s : NodeStatus) (isPrimary : Bool) (lastHeard : Option Duration)
    (now : Duration) : Bool :=
  ¬s.revolting ∧ (t.tooSilent s isPrimary lastHeard now ∨ t.deadline < now)

/-- Starts a revolt when one is due; the answer says so. -/
def update {n : Nat} (t : RevoltTracker) (m : Manager n) (shouldBuild : Bool) (now : Duration) :
    Except Fault (RevoltTracker × Manager n × Bool) := do
  let t ← t.refresh m.own shouldBuild now
  if t.due m.own m.isPrimary (m.heardAt.get m.primary) now then
    let (m, _) ← m.handle .revolt
    return (t, m, true)
  else return (t, m, false)

end RevoltTracker

end Conclave

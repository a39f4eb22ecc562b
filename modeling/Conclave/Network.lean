import Conclave.Duration
import Conclave.Random

/-!
A network of `size` nodes with cut links, random loss and jittered delay. Every message between two
nodes is either delivered or dropped at the moment it is sent; a delivered one is in flight until it
arrives.
-/

namespace Conclave

/-- The link delay is `latency`, give or take the fraction `jitter` of it. -/
structure NetworkConfig where
  latency : Duration := .ofMillis 2
  jitter : Float := 0.1
  lossRate : Float := 0
  seed : Nat := 42

structure Network (M : Type) where
  size : Nat
  /-- Links that drop everything, from the first node to the second. -/
  cuts : List (Nat × Nat) := []
  lossRate : Float
  /-- The seconds by which a delivery may come early or late. -/
  jitter : Float
  random : Random
  delivered : Nat := 0
  dropped : Nat := 0
  /-- Sender, addressee and message, newest first. -/
  inFlight : List (Nat × Nat × M) := []
  /-- Addressees that no longer listen. -/
  closed : List Nat := []

namespace Network

variable {M : Type}

def start (size : Nat) (c : NetworkConfig) : Network M :=
  let seconds := Float.ofNat c.latency.seconds + Float.ofNat c.latency.subsecond / 1000000000
  { size, lossRate := c.lossRate, jitter := seconds * c.jitter, random := .ofSeed c.seed }

def isCut (w : Network M) (sender receiver : Nat) : Bool := (sender, receiver) ∈ w.cuts

def cut (w : Network M) (sender receiver : Nat) : Network M :=
  { w with cuts := w.cuts.insert (sender, receiver) }

def cutBoth (w : Network M) (a b : Nat) : Network M := (w.cut a b).cut b a

/-- Cuts every link of `node`. -/
def isolate (w : Network M) (node : Nat) : Network M :=
  ((List.range w.size).filter (· ≠ node)).foldl (fun w other => w.cutBoth node other) w

def heal (w : Network M) : Network M := { w with cuts := [] }

/-- Sets the loss rate, clamped to a probability. -/
def setLossRate (w : Network M) (rate : Float) : Network M :=
  { w with lossRate := if rate < 0 then 0 else if rate > 1 then 1 else rate }

def close (w : Network M) (node : Nat) : Network M := { w with closed := node :: w.closed }

/-- Decides whether a message is lost; without a loss rate nothing is drawn. -/
def drawLoss (w : Network M) : Bool × Network M :=
  if w.lossRate > 0 then
    let (fraction, random) := w.random.nextFraction
    (Float.ofNat fraction / 9007199254740992 < w.lossRate, { w with random })
  else (false, w)

/-- Draws the delay of a delivery. Its length shows nowhere, so only the generator moves. -/
def drawDelay (w : Network M) : Network M :=
  if w.jitter > 0 then { w with random := (w.random.within w.jitter 256).2 } else w

/-- Sends over a link; an addressee outside the network is ignored. -/
def transmit (w : Network M) (sender receiver : Nat) (message : M) : Network M :=
  if w.size ≤ receiver then w
  else if w.isCut sender receiver then { w with dropped := w.dropped + 1 }
  else
    match w.drawLoss with
    | (true, w) => { w with dropped := w.dropped + 1 }
    | (false, w) =>
      let w := w.drawDelay
      { w with delivered := w.delivered + 1, inFlight := (sender, receiver, message) :: w.inFlight }

def send (w : Network M) (sender receiver : Nat) (message : M) : Network M :=
  if receiver = sender then w else w.transmit sender receiver message

def broadcast (w : Network M) (sender : Nat) (message : M) : Network M :=
  (List.range w.size).foldl (fun w receiver => w.send sender receiver message) w

/-- What arrives at `node`: the sender and message of everything in flight to it. -/
def arrivals (w : Network M) (node : Nat) : List (Nat × M) :=
  if node ∈ w.closed then []
  else w.inFlight.filterMap fun (sender, receiver, message) =>
    if receiver = node then some (sender, message) else none

def clearFlight (w : Network M) : Network M := { w with inFlight := [] }

end Network

end Conclave

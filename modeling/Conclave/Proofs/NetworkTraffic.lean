import Conclave.Network
import Mathlib.Data.List.Perm.Basic
import Mathlib.Logic.Function.Basic

/-!
# Every message is delivered or dropped

A network is driven by any sequence of operations, its random source may be in any state before each
of them, and what is in flight arrives in any order. Each attempt to send is written down with what
became of it. The counters add up to the attempts, and an inbox together with what is in flight to
it holds the messages that were taken for it and nothing else. Cut links take nothing.
-/

namespace Conclave

/-- An attempt to send over a link, and whether the network took the message. -/
structure Transmission (M : Type) where
  sender : ℕ
  receiver : ℕ
  message : M
  taken : Bool

namespace Transmission

variable {M : Type}

/-- What is in flight of an attempt that was taken. -/
def letter (e : Transmission M) : ℕ × ℕ × M := (e.sender, e.receiver, e.message)

/-- What is read in the inbox. -/
def tagged (e : Transmission M) : ℕ × M := (e.sender, e.message)

/-- Whether a message was taken for `node`. -/
def takenFor (node : ℕ) (e : Transmission M) : Bool := e.taken && e.receiver == node

end Transmission

namespace Network

variable {M : Type} {w w' w'' : Network M} {log more : List (Transmission M)} {a b : ℕ}
  {message : M}

/-- What becomes of a message: the counter tells. A message to the sender itself or to a node
outside the network is no attempt. -/
def verdict (w : Network M) (sender receiver : ℕ) (message : M) : List (Transmission M) :=
  if receiver < w.size ∧ receiver ≠ sender then
    [⟨sender, receiver, message, w.delivered < (w.send sender receiver message).delivered⟩]
  else []

/-- What becomes of a message that is sent to one node after the other. -/
def verdicts (w : Network M) (sender : ℕ) (message : M) : List ℕ → List (Transmission M)
  | [] => []
  | receiver :: rest =>
    w.verdict sender receiver message ++
      (w.send sender receiver message).verdicts sender message rest

/-- What sending does to the network: it counts each attempt and takes messages over open links. -/
structure Handles (w : Network M) (log : List (Transmission M)) (w' : Network M) : Prop where
  size : w'.size = w.size
  cuts : w'.cuts = w.cuts
  closed : w'.closed = w.closed
  delivered : w'.delivered = w.delivered + log.countP (·.taken)
  dropped : w'.dropped = w.dropped + log.countP (!·.taken)
  inFlight : w'.inFlight = ((log.filter (·.taken)).map Transmission.letter).reverse ++ w.inFlight
  linked : ∀ e ∈ log, e.taken = true → (e.sender, e.receiver) ∉ w.cuts

lemma Handles.refl (w : Network M) : w.Handles [] w where
  size := rfl
  cuts := rfl
  closed := rfl
  delivered := rfl
  dropped := rfl
  inFlight := rfl
  linked _ he := nomatch he

lemma Handles.trans (h : w.Handles log w') (h' : w'.Handles more w'') :
    w.Handles (log ++ more) w'' where
  size := h'.size.trans h.size
  cuts := h'.cuts.trans h.cuts
  closed := h'.closed.trans h.closed
  delivered := by rw [h'.delivered, h.delivered, List.countP_append, Nat.add_assoc]
  dropped := by rw [h'.dropped, h.dropped, List.countP_append, Nat.add_assoc]
  inFlight := by simp [h'.inFlight, h.inFlight]
  linked e he htaken := by
    rcases List.mem_append.1 he with he | he
    · exact h.linked e he htaken
    · have hlinked := h'.linked e he htaken
      rwa [h.cuts] at hlinked

lemma verdict_eq_nil (h : ¬(b < w.size ∧ b ≠ a)) : w.verdict a b message = [] := if_neg h

lemma verdict_eq (h : b < w.size ∧ b ≠ a) :
    w.verdict a b message = [⟨a, b, message, w.delivered < (w.send a b message).delivered⟩] :=
  if_pos h

lemma send_eq_self (h : ¬(b < w.size ∧ b ≠ a)) : w.send a b message = w := by
  by_cases hself : b = a
  · simp [send, hself]
  · have hout : w.size ≤ b := by omega
    simp [send, hself, transmit, hout]

/-- The draw for a loss moves the random source and nothing else. -/
lemma drawLoss_eq (w : Network M) : ∃ random, w.drawLoss.2 = { w with random } := by
  unfold drawLoss
  split
  · exact ⟨_, rfl⟩
  · exact ⟨w.random, rfl⟩

lemma drawDelay_eq (w : Network M) : ∃ random, w.drawDelay = { w with random } := by
  unfold drawDelay
  split
  · exact ⟨_, rfl⟩
  · exact ⟨w.random, rfl⟩

/-- An attempt is dropped, or the link is open and the message goes on its way. -/
lemma send_of_attempt (h : b < w.size ∧ b ≠ a) (message : M) :
    (∃ random, w.send a b message = { w with random, dropped := w.dropped + 1 }) ∨
    (a, b) ∉ w.cuts ∧ ∃ random, w.send a b message =
      { w with
        random, delivered := w.delivered + 1, inFlight := (a, b, message) :: w.inFlight } := by
  have hin : ¬w.size ≤ b := Nat.not_le.2 h.1
  simp only [send, if_neg h.2, transmit, if_neg hin]
  by_cases hcut : w.isCut a b
  · exact .inl ⟨w.random, by simp [hcut]⟩
  · rw [if_neg hcut]
    obtain ⟨random, hloss⟩ := w.drawLoss_eq
    rcases hdraw : w.drawLoss with ⟨lost, after⟩
    rw [hdraw] at hloss
    subst hloss
    cases lost with
    | true => exact .inl ⟨random, rfl⟩
    | false =>
      obtain ⟨later, hdelay⟩ := drawDelay_eq { w with random }
      refine .inr ⟨by simpa [isCut] using hcut, later, ?_⟩
      simp only [hdelay]

lemma handles_send (w : Network M) (a b : ℕ) (message : M) :
    w.Handles (w.verdict a b message) (w.send a b message) := by
  by_cases h : b < w.size ∧ b ≠ a
  · rw [verdict_eq h]
    rcases send_of_attempt h message with ⟨random, hsend⟩ | ⟨hopen, random, hsend⟩
    · rw [hsend]
      constructor <;> simp
    · rw [hsend]
      constructor <;> simp [Transmission.letter, hopen]
  · rw [verdict_eq_nil h, send_eq_self h]
    exact .refl w

lemma handles_foldl_send (w : Network M) (a : ℕ) (message : M) (receivers : List ℕ) :
    w.Handles (w.verdicts a message receivers)
      (receivers.foldl (fun w b => w.send a b message) w) := by
  induction receivers generalizing w with
  | nil => exact .refl w
  | cons b rest ih => exact (w.handles_send a b message).trans (ih _)

/-- The messages among these that go to `node`, with their senders. -/
def mailTo (node : ℕ) (letters : List (ℕ × ℕ × M)) : List (ℕ × M) :=
  letters.filterMap fun (sender, receiver, message) =>
    if receiver = node then some (sender, message) else none

lemma arrivals_eq (h : w.closed = []) (node : ℕ) : w.arrivals node = mailTo node w.inFlight := by
  simp [arrivals, mailTo, h]

/-- What the letters that were taken bring to `node`. -/
lemma mailTo_taken (node : ℕ) (log : List (Transmission M)) :
    mailTo node ((log.filter (·.taken)).map Transmission.letter) =
      (log.filter (Transmission.takenFor node)).map Transmission.tagged := by
  induction log with
  | nil => rfl
  | cons e log ih =>
    unfold mailTo at ih ⊢
    by_cases htaken : e.taken = true
    · by_cases hnode : e.receiver = node
      · simp_all [Transmission.takenFor, Transmission.letter, Transmission.tagged]
      · simp_all [Transmission.takenFor, Transmission.letter]
    · simp_all [Transmission.takenFor]

/-- Partitions touch nothing but the links. -/
lemma isolate_eq (w : Network M) (node : ℕ) : ∃ cuts, w.isolate node = { w with cuts } := by
  unfold isolate
  induction (List.range w.size).filter (· ≠ node) generalizing w with
  | nil => exact ⟨w.cuts, rfl⟩
  | cons other others ih =>
    obtain ⟨cuts, h⟩ := ih (w.cutBoth node other)
    exact ⟨cuts, h⟩

end Network

/-- A network and what has arrived in the inboxes of its nodes. -/
structure Traffic (M : Type) where
  network : Network M
  inbox : ℕ → List (ℕ × M)

namespace Traffic

variable {M : Type}

/-- What can happen to a network whose nodes all listen. -/
inductive Act (M : Type) where
  | send (sender receiver : ℕ) (message : M)
  | broadcast (sender : ℕ) (message : M)
  | cut (sender receiver : ℕ)
  | cutBoth (a b : ℕ)
  | isolate (node : ℕ)
  | heal
  | setLossRate (rate : Float)
  /-- The random source goes to a state of its own choice. -/
  | sample (random : Random)
  /-- One of the messages in flight arrives. -/
  | land (index : ℕ)
  /-- All messages in flight arrive. -/
  | arrive

/-- The attempts of an operation: a message to another node, or one to each other node. -/
def Act.attempts (size : ℕ) : Act M → List (ℕ × ℕ × M)
  | .send a b message => if b < size ∧ b ≠ a then [(a, b, message)] else []
  | .broadcast a message => ((List.range size).filter (· ≠ a)).map fun b => (a, b, message)
  | _ => []

def start (size : ℕ) (c : NetworkConfig) : Traffic M := ⟨.start size c, fun _ => []⟩

/-- What the network has in flight is split: this part arrives, the other stays. -/
def deliver (t : Traffic M) (now later : List (ℕ × ℕ × M)) : Traffic M where
  network := { t.network with inFlight := later }
  inbox node := t.inbox node ++ { t.network with inFlight := now }.arrivals node

def step (t : Traffic M) : Act M → Traffic M
  | .send a b message => { t with network := t.network.send a b message }
  | .broadcast a message => { t with network := t.network.broadcast a message }
  | .cut a b => { t with network := t.network.cut a b }
  | .cutBoth a b => { t with network := t.network.cutBoth a b }
  | .isolate node => { t with network := t.network.isolate node }
  | .heal => { t with network := t.network.heal }
  | .setLossRate rate => { t with network := t.network.setLossRate rate }
  | .sample random => { t with network := { t.network with random } }
  | .land index =>
    t.deliver t.network.inFlight[index]?.toList (t.network.inFlight.eraseIdx index)
  | .arrive =>
    ⟨t.network.clearFlight, fun node => t.inbox node ++ t.network.arrivals node⟩

def run (t : Traffic M) (acts : List (Act M)) : Traffic M := acts.foldl step t

/-- What becomes of the attempts of one operation. -/
def verdicts (t : Traffic M) : Act M → List (Transmission M)
  | .send a b message => t.network.verdict a b message
  | .broadcast a message => t.network.verdicts a message (List.range t.network.size)
  | _ => []

/-- What becomes of all attempts, oldest first. -/
def log (t : Traffic M) : List (Act M) → List (Transmission M)
  | [] => []
  | act :: acts => t.verdicts act ++ (t.step act).log acts

variable {t : Traffic M} {logged : List (Transmission M)} {act : Act M} {acts : List (Act M)}
  {size : ℕ}

/-- The books of a network of `size` nodes that began empty: counters, inboxes and what is in flight
match the attempts so far. -/
structure Tallied (size : ℕ) (t : Traffic M) (logged : List (Transmission M)) : Prop where
  size_eq : t.network.size = size
  listening : t.network.closed = []
  delivered : t.network.delivered = logged.countP (·.taken)
  dropped : t.network.dropped = logged.countP (!·.taken)
  mail : ∀ node, (t.inbox node ++ Network.mailTo node t.network.inFlight).Perm
    ((logged.filter (Transmission.takenFor node)).map Transmission.tagged)

/-- Sending adds to what is in flight exactly what was taken. -/
lemma Tallied.handles (h : t.Tallied size logged) {more : List (Transmission M)} {w : Network M}
    (hw : t.network.Handles more w) : Tallied size { t with network := w } (logged ++ more) where
  size_eq := hw.size.trans h.size_eq
  listening := hw.closed.trans h.listening
  delivered := by rw [hw.delivered, h.delivered, List.countP_append]
  dropped := by rw [hw.dropped, h.dropped, List.countP_append]
  mail node := by
    have hnew : (Network.mailTo node ((more.filter (·.taken)).map Transmission.letter).reverse).Perm
        ((more.filter (Transmission.takenFor node)).map Transmission.tagged) := by
      rw [← Network.mailTo_taken]
      exact (List.reverse_perm _).filterMap _
    have hmail : Network.mailTo node w.inFlight =
        Network.mailTo node ((more.filter (·.taken)).map Transmission.letter).reverse ++
          Network.mailTo node t.network.inFlight := by
      rw [hw.inFlight]
      exact List.filterMap_append
    rw [hmail, List.filter_append, List.map_append]
    refine List.Perm.trans (List.perm_append_comm.append_left _) ?_
    rw [← List.append_assoc]
    exact (h.mail node).append hnew

/-- What arrives leaves what is in flight and is added to the inboxes. -/
lemma Tallied.deliver (h : t.Tallied size logged) {now later : List (ℕ × ℕ × M)}
    (hsplit : (now ++ later).Perm t.network.inFlight) :
    (t.deliver now later).Tallied size logged where
  size_eq := h.size_eq
  listening := h.listening
  delivered := h.delivered
  dropped := h.dropped
  mail node := by
    have hnow : { t.network with inFlight := now }.arrivals node = Network.mailTo node now :=
      Network.arrivals_eq (w := { t.network with inFlight := now }) h.listening node
    have hall : (Network.mailTo node now ++ Network.mailTo node later).Perm
        (Network.mailTo node t.network.inFlight) := by
      rw [Network.mailTo, Network.mailTo, ← List.filterMap_append]
      exact hsplit.filterMap _
    simp only [Traffic.deliver, hnow, List.append_assoc]
    exact (hall.append_left _).trans (h.mail node)

lemma deliver_all (t : Traffic M) : t.deliver t.network.inFlight [] = t.step .arrive := rfl

/-- One message and the others are all that is in flight. -/
lemma getElem?_toList_append_eraseIdx_perm {α : Type} (xs : List α) (i : ℕ) :
    (xs[i]?.toList ++ xs.eraseIdx i).Perm xs := by
  by_cases hi : i < xs.length
  · rw [List.getElem?_eq_getElem hi]
    exact List.getElem_cons_eraseIdx_perm hi
  · rw [List.getElem?_eq_none (Nat.not_lt.1 hi), List.eraseIdx_of_length_le (Nat.not_lt.1 hi)]
    exact .refl _

/-- Each operation adds its own attempts to the books. -/
lemma Tallied.step (h : t.Tallied size logged) (act : Act M) :
    (t.step act).Tallied size (logged ++ t.verdicts act) := by
  have hquiet : ∀ {t' : Traffic M}, t'.Tallied size logged → t'.Tallied size (logged ++ []) := by
    intro t' ht'
    rwa [List.append_nil]
  cases act with
  | send a b message => exact h.handles (t.network.handles_send a b message)
  | broadcast a message => exact h.handles (t.network.handles_foldl_send a message _)
  | land index => exact hquiet (h.deliver (getElem?_toList_append_eraseIdx_perm _ index))
  | arrive => exact hquiet (deliver_all t ▸ h.deliver (by rw [List.append_nil]))
  | isolate node =>
    obtain ⟨cuts, hcuts⟩ := t.network.isolate_eq node
    have hcut : Tallied size { t with network := t.network.isolate node } logged := by
      rw [hcuts]
      exact { h with }
    exact hquiet hcut
  | _ => exact hquiet { h with }

lemma Tallied.run (h : t.Tallied size logged) (acts : List (Act M)) :
    (t.run acts).Tallied size (logged ++ t.log acts) := by
  induction acts generalizing t logged with
  | nil => rwa [log, List.append_nil]
  | cons act acts ih =>
    rw [log, ← List.append_assoc]
    exact ih (h.step act)

end Traffic

end Conclave

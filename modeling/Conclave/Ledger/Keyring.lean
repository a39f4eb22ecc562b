import Conclave.Fault
import Conclave.Ledger.Error
import Conclave.Table
import Conclave.Word

/-!
The signing secrets and public identities of all validators. A signature is the digest of the
secret and the block reference.
-/

namespace Conclave

structure Key where
  secret : Bytes
  identity : Bytes
deriving DecidableEq, Inhabited

def Key.sign (k : Key) (rid : Rid) : Signature := ⟨k.identity, Hash.digest (k.secret ++ rid.bytes)⟩

abbrev Keyring (n : Nat) := Table n Key

namespace Keyring

variable {n : Nat}

/-- Every secret is the digest of the shared seed and its owner's index. -/
def ofSeed (n seed : Nat) : Keyring n :=
  Vector.ofFn fun i =>
    let secret := Hash.digest (Word.littleEndian 8 seed ++ Word.littleEndian 8 i)
    ⟨secret, Hash.digest ("public".toUTF8.toList ++ secret)⟩

def key (keys : Keyring n) (i : Nat) : Except Fault Key :=
  if h : i < n then .ok (keys.get ⟨i, h⟩) else .error (.indexOutOfRange n i)

/-- The validator with this identity. -/
def signer? (keys : Keyring n) (s : Signature) : Option (Fin n) :=
  (List.finRange n).find? fun i => (keys.get i).identity = s.signer

/-- The validator that signed `rid` with `s`. -/
def verify (keys : Keyring n) (s : Signature) (rid : Rid) : Except EngineError (Fin n) :=
  match keys.signer? s with
  | none => .error (.unknownSigner s.signer)
  | some i =>
    if s.data = ((keys.get i).sign rid).data then .ok i else .error (.badData (.signature i rid))

end Keyring

end Conclave

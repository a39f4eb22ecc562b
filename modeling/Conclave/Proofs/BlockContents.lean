import Conclave.Ledger.Engine
import Mathlib.Algebra.Group.Nat.Defs
import Mathlib.Data.List.Basic

/-!
# The bytes behind a block reference

A block reference is the digest of the contents of the block written out as bytes. The numbers have
a fixed width, each transaction follows its length, and neither the number of transactions nor an
end is written. The bytes still determine the contents, so two different contents share a reference
only where the hash collides.
-/

namespace Conclave

variable {m n : ℕ}

/-- Numbers that fit `count` bytes are told apart by them. -/
lemma Word.littleEndian_inj {count : ℕ} (hm : m < 256 ^ count) (hn : n < 256 ^ count) :
    Word.littleEndian count m = Word.littleEndian count n ↔ m = n := by
  induction count generalizing m n with
  | zero => simp_all [Word.littleEndian]
  | succ count ih =>
    have hm' : m / 256 < 256 ^ count := Nat.div_lt_of_lt_mul (by rwa [← Nat.pow_succ'])
    have hn' : n / 256 < 256 ^ count := Nat.div_lt_of_lt_mul (by rwa [← Nat.pow_succ'])
    simp only [Word.littleEndian, List.cons.injEq, ih hm' hn']
    constructor
    · intro h
      have hlow : m % 256 = n % 256 := by simpa using congrArg UInt8.toNat h.1
      omega
    · rintro rfl
      exact ⟨rfl, rfl⟩

/-- What follows a word cannot be taken for a part of it. -/
lemma Word.littleEndian_append_inj (hm : m ≤ maxUnsigned) (hn : n ≤ maxUnsigned)
    {xs ys : List UInt8} (h : littleEndian 8 m ++ xs = littleEndian 8 n ++ ys) :
    m = n ∧ xs = ys := by
  obtain ⟨hword, hrest⟩ := List.append_inj h (by simp)
  refine ⟨(littleEndian_inj ?_ ?_).1 hword, hrest⟩
  · exact Nat.lt_succ_of_le hm
  · exact Nat.lt_succ_of_le hn

lemma Rid.eq_of_bytes {a b : Rid} (h : a.bytes = b.bytes) : a = b := by
  cases a
  congr

/-- Two different inputs with one digest. -/
structure Hash.Collide (xs ys : List UInt8) : Prop where
  ne : xs ≠ ys
  digest_eq : Hash.digest xs = Hash.digest ys

/-- What a block reference is computed from: the numbers fit a word, and no transaction is so long
that its length does not. -/
@[ext]
structure BlockContents where
  parent : Rid
  height : ℕ
  timestamp : ℕ
  transactions : List Bytes
  height_le : height ≤ Word.maxUnsigned
  timestamp_le : timestamp ≤ Word.maxUnsigned
  length_le : ∀ tx ∈ transactions, tx.length ≤ Word.maxUnsigned

namespace BlockContents

/-- A transaction as it is hashed: behind its length. -/
def framed (tx : Bytes) : Bytes := Word.littleEndian 8 tx.length ++ tx

/-- What follows a transaction cannot be taken for a part of it either, whatever its bytes are. -/
lemma framed_append_inj {s t : Bytes} (hs : s.length ≤ Word.maxUnsigned)
    (ht : t.length ≤ Word.maxUnsigned) {xs ys : Bytes} (h : framed s ++ xs = framed t ++ ys) :
    s = t ∧ xs = ys := by
  simp only [framed, List.append_assoc] at h
  obtain ⟨hlength, hrest⟩ := Word.littleEndian_append_inj hs ht h
  exact List.append_inj hrest hlength

lemma framed_append_ne_nil (tx xs : Bytes) : framed tx ++ xs ≠ [] := by
  intro h
  have hlength := congrArg List.length h
  simp [framed] at hlength

/-- The boundaries between the transactions come back one length after the other. -/
lemma flatMap_framed_inj {ss ts : List Bytes} (hs : ∀ tx ∈ ss, tx.length ≤ Word.maxUnsigned)
    (ht : ∀ tx ∈ ts, tx.length ≤ Word.maxUnsigned) (h : ss.flatMap framed = ts.flatMap framed) :
    ss = ts := by
  induction ss generalizing ts with
  | nil =>
    cases ts with
    | nil => rfl
    | cons t ts => exact absurd h.symm (framed_append_ne_nil t _)
  | cons s ss ih =>
    cases ts with
    | nil => exact absurd h (framed_append_ne_nil s _)
    | cons t ts =>
      rw [List.forall_mem_cons] at hs ht
      simp only [List.flatMap_cons] at h
      obtain ⟨hhead, htail⟩ := framed_append_inj hs.1 ht.1 h
      rw [hhead, ih hs.2 ht.2 htail]

/-- Eight zeros in one transaction are not the length of an empty one. -/
example : [[], []].flatMap framed ≠ [List.replicate 8 0].flatMap framed := by decide

def bytes (c : BlockContents) : Bytes :=
  contentBytes c.parent c.height c.timestamp c.transactions

def rid (c : BlockContents) : Rid := contentRid c.parent c.height c.timestamp c.transactions

lemma bytes_eq (c : BlockContents) :
    c.bytes = c.parent.bytes ++ (Word.littleEndian 8 c.height ++
      (Word.littleEndian 8 c.timestamp ++ c.transactions.flatMap framed)) := by
  simp only [bytes, contentBytes, List.append_assoc]
  rfl

/-- Nothing of the contents is lost in the bytes that are hashed. -/
lemma bytes_injective : Function.Injective bytes := by
  intro a b h
  rw [bytes_eq, bytes_eq] at h
  obtain ⟨hparent, h⟩ := List.append_inj h (by rw [a.parent.length_eq, b.parent.length_eq])
  obtain ⟨hheight, h⟩ := Word.littleEndian_append_inj a.height_le b.height_le h
  obtain ⟨htimestamp, h⟩ := Word.littleEndian_append_inj a.timestamp_le b.timestamp_le h
  have htransactions := flatMap_framed_inj a.length_le b.length_le h
  ext1
  · exact Rid.eq_of_bytes hparent
  · exact hheight
  · exact htimestamp
  · exact htransactions

lemma rid_eq_iff_digest_eq (a b : BlockContents) :
    a.rid = b.rid ↔ Hash.digest a.bytes = Hash.digest b.bytes := by
  simp [rid, contentRid, Rid.ofDigest, bytes]

/-- Contents are hashed as the same bytes only if they are the same, and different contents have one
reference exactly where the hash collides on what they are written as. -/
theorem rid_eq_iff_eq_or_collide (a b : BlockContents) :
    (a.bytes = b.bytes ↔ a = b) ∧ (a.rid = b.rid ↔ a = b ∨ Hash.Collide a.bytes b.bytes) := by
  refine ⟨bytes_injective.eq_iff, ?_⟩
  rw [rid_eq_iff_digest_eq]
  constructor
  · intro hdigest
    by_cases hbytes : a.bytes = b.bytes
    · exact .inl (bytes_injective hbytes)
    · exact .inr ⟨hbytes, hdigest⟩
  · rintro (rfl | hcollide)
    · rfl
    · exact hcollide.digest_eq

/-- What the reference of an engine's next block is computed from. -/
def ofNext (e : Engine n) (timestamp : ℕ) (txs : List Bytes)
    (hheight : e.chain.height < Word.maxUnsigned) (htimestamp : timestamp ≤ Word.maxUnsigned)
    (htxs : ∀ tx ∈ txs, tx.length ≤ Word.maxUnsigned) : BlockContents :=
  ⟨e.chain.lastRid, e.chain.height + 1, timestamp, txs, hheight, htimestamp, htxs⟩

/-- The same bytes in two transactions, but divided otherwise. The references of the two blocks
differ, so the hash does not collide on them. -/
theorem rid_eq_iff_eq_or_collide_of_next :
    let e : Engine 4 := { me := 0, keys := .ofSeed 4 0 }
    let a := ofNext e 5000 [[7], [8, 9]] (by decide) (by decide) (by decide)
    let b := ofNext e 5000 [[7, 8], [9]] (by decide) (by decide) (by decide)
    a.rid = (e.nextBlock 5000 [[7], [8, 9]]).rid ∧ b.rid = (e.nextBlock 5000 [[7, 8], [9]]).rid ∧
      a.bytes ≠ b.bytes ∧ a.rid ≠ b.rid ∧ ¬ Hash.Collide a.bytes b.bytes := by
  intro e a b
  obtain ⟨hbytes, hrids⟩ := rid_eq_iff_eq_or_collide a b
  have hne : a ≠ b := by
    intro heq
    have htxs : ([[7], [8, 9]] : List Bytes) = [[7, 8], [9]] := congrArg transactions heq
    exact absurd htxs (by decide)
  have hrid : a.rid ≠ b.rid := by decide +kernel
  exact ⟨rfl, rfl, fun h => hne (hbytes.mp h), hrid, fun h => hrid (hrids.mpr (.inr h))⟩

end BlockContents

end Conclave

import Conclave.Word.Matrix

/-!
Reproducible random choices: the words of the ChaCha stream with eight rounds, read one after
another. A generator is a key and a position, so a draw returns the moved generator.
-/

namespace Conclave

open Word (Row Matrix)

structure Random where
  key : Row × Row
  position : Nat
deriving DecidableEq

namespace Random

def quarterRound (s : Matrix) : Matrix :=
  let top := s.top + s.upper
  let bottom := (s.bottom ^^^ top).map (Word.rotateLeft 16)
  let lower := s.lower + bottom
  let upper := (s.upper ^^^ lower).map (Word.rotateLeft 12)
  let top := top + upper
  let bottom := (bottom ^^^ top).map (Word.rotateLeft 8)
  let lower := lower + bottom
  ⟨top, (upper ^^^ lower).map (Word.rotateLeft 7), lower, bottom⟩

def doubleRounds : Nat → Matrix → Matrix
  | 0, s => s
  | n + 1, s => doubleRounds n (quarterRound (quarterRound s).skew).unskew

/-- Block `index` of the stream. -/
def block (key : Row × Row) (index : Nat) : Matrix :=
  let start : Matrix := ⟨⟨0x61707865, 0x3320646e, 0x79622d32, 0x6b206574⟩, key.1, key.2,
    ⟨index.toUInt32, (index / 4294967296).toUInt32, 0, 0⟩⟩
  doubleRounds 4 start + start

/-- The eight key words grown from a short seed. -/
def seedWords : Nat → UInt64 → List UInt32
  | 0, _ => []
  | n + 1, state =>
    let state := state * 6364136223846793005 + 11634580027462260723
    let folded := (((state >>> 18) ^^^ state) >>> 27).toUInt32
    let turn := (state >>> 59).toUInt32
    ((folded >>> turn) ||| (folded <<< ((32 - turn) % 32))) :: seedWords n state

def ofSeed (seed : Nat) : Random :=
  let m := Matrix.ofList (seedWords 8 seed.toUInt64)
  ⟨(m.top, m.upper), 0⟩

def nextWord (g : Random) : UInt32 × Random :=
  ((block g.key (g.position / 16)).toList.getD (g.position % 16) 0,
    { g with position := g.position + 1 })

/-- Two words, the low one first. -/
def nextDouble (g : Random) : Nat × Random :=
  let (low, g) := g.nextWord
  let (high, g) := g.nextWord
  (low.toNat + high.toNat * 4294967296, g)

/-- A fraction of `2 ^ 53`, uniform below one. -/
def nextFraction (g : Random) : Nat × Random :=
  let (word, g) := g.nextDouble
  (word / 2048, g)

/-- A number between `-radius` and `radius`. One that rounding lifts to the upper end is drawn
again, up to `attempts` times. -/
def within (radius : Float) : (attempts : Nat) → Random → Float × Random
  | 0, g => (0, g)
  | attempts + 1, g =>
    let (word, g) := g.nextDouble
    let x := Float.ofNat (word / 4096) / 4503599627370496 * (radius + radius) - radius
    if x < radius then (x, g) else within radius attempts g

/-- The largest low half of a product that `below` accepts, for a bound of at most 32 bits. -/
def zone (bound : Nat) : Nat := (bound <<< (31 - bound.log2)) - 1

/-- A uniform number below `bound`. A word is refused with probability under one half; after
`attempts` refusals the last word counts. -/
def below (bound : Nat) : (attempts : Nat) → Random → Nat × Random
  | 0, g =>
    let (word, g) := g.nextWord
    (word.toNat * bound / 4294967296, g)
  | attempts + 1, g =>
    let (word, g') := g.nextWord
    let product := word.toNat * bound
    if product % 4294967296 ≤ zone bound then (product / 4294967296, g')
    else below bound attempts g'

theorem below_lt {bound : Nat} (h : 0 < bound) (attempts : Nat) (g : Random) :
    (below bound attempts g).1 < bound := by
  induction attempts generalizing g with
  | zero =>
    have := g.nextWord.1.toNat_lt
    simp only [below]
    exact (Nat.div_lt_iff_lt_mul (by decide)).2
      (by rw [Nat.mul_comm]; exact Nat.mul_lt_mul_of_pos_left this h)
  | succ n ih =>
    have := g.nextWord.1.toNat_lt
    simp only [below]
    split
    · exact (Nat.div_lt_iff_lt_mul (by decide)).2
        (by rw [Nat.mul_comm]; exact Nat.mul_lt_mul_of_pos_left this h)
    · exact ih _

/-- An element of the list; an empty list uses up no word. -/
def choose {α : Type} (xs : List α) (g : Random) : Option α × Random :=
  if xs.isEmpty then (none, g)
  else
    let (i, g) := g.below xs.length 256
    (xs[i]?, g)

end Random

end Conclave

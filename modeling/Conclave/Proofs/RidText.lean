import Conclave.Rid
import Mathlib.Data.List.Basic

/-!
# The text of a reference

A reference is written as 64 hexadecimal digits in lower case. The reader takes texts as bytes in
UTF-8: it refuses an odd number of them, then the first one that is no digit, then what is too short
or too long for a reference. What is left are the 64 digits in either case, and what is read from
them is written as the same digits in lower case.
-/

namespace Conclave

namespace Hex

variable {n : ℕ}

/-! ### Reading what was written -/

lemma value?_digit (h : n < 16) : value? (digit n) = some n := by
  have hall : ∀ m : Fin 16, value? (digit m) = some m.val := by decide
  exact hall ⟨n, h⟩

lemma utf8Size_digit (h : n < 16) : (digit n).utf8Size = 1 := by
  have hall : ∀ m : Fin 16, (digit m).utf8Size = 1 := by decide
  exact hall ⟨n, h⟩

/-- The halves of a byte, high half first. -/
def halves (b : UInt8) : List ℕ := [b.toNat / 16, b.toNat % 16]

lemma halves_lt (b : UInt8) : b.toNat / 16 < 16 ∧ b.toNat % 16 < 16 := by
  have hb := b.toNat_lt
  omega

lemma utf8ByteSize_encode (bytes : List UInt8) :
    (encode bytes).utf8ByteSize = 2 * bytes.length := by
  induction bytes with
  | nil => rfl
  | cons b bytes ih =>
    obtain ⟨hhigh, hlow⟩ := halves_lt b
    simp only [encode, List.flatMap_cons, pair, List.cons_append, List.nil_append,
      String.ofList_cons, String.utf8ByteSize_append, String.utf8ByteSize_singleton,
      utf8Size_digit hhigh, utf8Size_digit hlow, List.length_cons] at ih ⊢
    omega

lemma digits_encode (index : ℕ) (bytes : List UInt8) :
    digits index (bytes.flatMap pair) = .ok (bytes.flatMap halves) := by
  induction bytes generalizing index with
  | nil => rfl
  | cons b bytes ih =>
    obtain ⟨hhigh, hlow⟩ := halves_lt b
    simp only [List.flatMap_cons, pair, halves, List.cons_append, List.nil_append, digits,
      value?_digit hhigh, value?_digit hlow, ih]
    rfl

lemma join_halves (bytes : List UInt8) : join (bytes.flatMap halves) = bytes := by
  induction bytes with
  | nil => rfl
  | cons b bytes ih =>
    have hb : 16 * (b.toNat / 16) + b.toNat % 16 = b.toNat := by omega
    simp only [List.flatMap_cons, halves, List.cons_append, List.nil_append, join, hb,
      UInt8.ofNat_toNat]
    exact congrArg (b :: ·) ih

theorem decode_encode (bytes : List UInt8) : decode (encode bytes) = .ok bytes := by
  have heven : ¬(encode bytes).utf8ByteSize % 2 = 1 := by
    rw [utf8ByteSize_encode]
    omega
  rw [decode, if_neg heven, encode, String.toList_ofList, digits_encode]
  exact congrArg Except.ok (join_halves bytes)

lemma encode_injective : Function.Injective encode := fun a b h => by
  have hread := decode_encode a
  rw [h, decode_encode] at hread
  exact (Except.ok.inj hread).symm

/-! ### Digits and the bytes that stand for them -/

/-- The sixteen digits, the letters among them in either case. -/
def numerals : List Char :=
  ['0', '1', '2', '3', '4', '5', '6', '7', '8', '9', 'a', 'b', 'c', 'd', 'e', 'f',
    'A', 'B', 'C', 'D', 'E', 'F']

def IsDigit (c : Char) : Prop := c ∈ numerals

/-- The byte is the code of a digit. -/
def IsDigitByte (b : UInt8) : Prop := ∃ c, IsDigit c ∧ c.toNat = b.toNat

variable {c : Char} {d : ℕ} {b : UInt8} {s : String}

lemma IsDigit.toNat_lt (h : IsDigit c) : c.toNat < 128 := by
  have hall : numerals.all (fun c => decide (c.toNat < 128)) = true := by decide
  exact of_decide_eq_true (List.all_eq_true.mp hall c h)

lemma IsDigit.exists_value (h : IsDigit c) :
    ∃ d < 16, value? c = some d ∧ digit d = c.toLower := by
  have hall : numerals.all (fun c =>
      (value? c).any fun d => decide (d < 16 ∧ digit d = c.toLower)) = true := by decide
  obtain ⟨d, hvalue, hd⟩ := (Option.any_eq_true _ _).mp (List.all_eq_true.mp hall c h)
  obtain ⟨hsmall, hlower⟩ := of_decide_eq_true hd
  exact ⟨d, hsmall, hvalue, hlower⟩

lemma toNat_lt_of_value? (h : value? c = some d) : c.toNat < 128 := by
  have hascii {last : Char} (hlast : last.toNat < 128) (hc : c ≤ last) : c.toNat < 128 :=
    Nat.lt_of_le_of_lt (UInt32.le_iff_toNat_le.mp hc) hlast
  unfold value? at h
  split at h
  · rename_i hrange
    exact hascii (by decide) hrange.2
  · split at h
    · rename_i hrange
      exact hascii (by decide) hrange.2
    · split at h
      · rename_i hrange
        exact hascii (by decide) hrange.2
      · cases h

lemma value?_eq_none_iff : value? c = none ↔ ¬IsDigit c := by
  constructor
  · intro h hdigit
    obtain ⟨d, -, hd, -⟩ := hdigit.exists_value
    cases h.symm.trans hd
  · intro h
    by_contra hsome
    obtain ⟨d, hd⟩ := Option.ne_none_iff_exists'.mp hsome
    have hall : ∀ k < 128, (value? (Char.ofNat k)).isSome = true → Char.ofNat k ∈ numerals := by
      decide
    have hmem := hall c.toNat (toNat_lt_of_value? hd)
    rw [Char.ofNat_toNat, hd] at hmem
    exact h (hmem rfl)

lemma utf8EncodeChar_of_lt (h : c.toNat < 128) : String.utf8EncodeChar c = [UInt8.ofNat c.toNat] :=
  if_pos (Nat.le_of_lt_succ h)

/-- The first byte of a character beyond ASCII is no code of one in it. -/
lemma leadByte_of_le (h : 128 ≤ c.toNat) : 128 ≤ (leadByte c).toNat := by
  have hc : ¬c.val.toNat ≤ 127 := Nat.not_le.mpr h
  unfold leadByte String.utf8EncodeChar
  simp only [if_neg hc]
  split_ifs
  all_goals
    simp only [List.headD_cons, UInt8.toNat_ofNat']
    omega

/-- A character begins with the code of a digit only if it is this digit. -/
lemma isDigitByte_leadByte : IsDigitByte (leadByte c) ↔ IsDigit c := by
  by_cases hc : c.toNat < 128
  · have hcode : (leadByte c).toNat = c.toNat := by
      rw [leadByte, utf8EncodeChar_of_lt hc, List.headD_cons, UInt8.toNat_ofNat']
      omega
    constructor
    · rintro ⟨x, hx, hcodes⟩
      exact Char.toNat_inj.mp (hcodes.trans hcode) ▸ hx
    · intro h
      exact ⟨c, h, hcode.symm⟩
  · have hlead : 128 ≤ (leadByte c).toNat := leadByte_of_le (Nat.not_lt.mp hc)
    refine iff_of_false ?_ fun h => hc h.toNat_lt
    rintro ⟨x, hx, hcodes⟩
    exact absurd hx.toNat_lt (Nat.not_lt.mpr (hcodes ▸ hlead))

lemma utf8EncodeChar_of_isDigit (h : IsDigit c) : String.utf8EncodeChar c = [leadByte c] := by
  rw [leadByte, utf8EncodeChar_of_lt h.toNat_lt, List.headD_cons]

lemma exists_utf8EncodeChar (c : Char) :
    ∃ rest, String.utf8EncodeChar c = leadByte c :: rest := by
  obtain ⟨b, rest, he⟩ := List.exists_cons_of_ne_nil (String.utf8EncodeChar_ne_nil (c := c))
  exact ⟨rest, by rw [leadByte, he, List.headD_cons]⟩

/-- The text in UTF-8. -/
def octets (s : String) : List UInt8 := s.toUTF8.data.toList

lemma octets_eq (s : String) : octets s = s.toList.flatMap String.utf8EncodeChar := by
  rw [octets, String.toUTF8_eq_toByteArray, ← String.utf8Encode_toList, List.utf8Encode,
    List.toList_data_toByteArray]

lemma length_octets (s : String) : (octets s).length = s.utf8ByteSize := rfl

lemma isDigitByte_octets :
    (∀ b ∈ octets s, IsDigitByte b) ↔ ∀ c ∈ s.toList, IsDigit c := by
  rw [octets_eq, List.forall_mem_flatMap]
  refine forall₂_congr fun c _ => ⟨fun h => ?_, fun h => ?_⟩
  · obtain ⟨rest, he⟩ := exists_utf8EncodeChar c
    exact isDigitByte_leadByte.mp (h _ (by simp [he]))
  · rw [utf8EncodeChar_of_isDigit h, List.forall_mem_singleton]
    exact isDigitByte_leadByte.mpr h

/-- Digits are one byte long. -/
lemma utf8ByteSize_of_isDigit (h : ∀ c ∈ s.toList, IsDigit c) : s.utf8ByteSize = s.length := by
  have hone : ∀ c ∈ s.toList, (String.utf8EncodeChar c).length = 1 := fun c hc => by
    rw [utf8EncodeChar_of_isDigit (h c hc), List.length_singleton]
  rw [← length_octets, octets_eq, List.length_flatMap, List.map_congr_left hone,
    ← String.length_toList, List.map_const', List.sum_replicate_nat, Nat.mul_one]

/-- The byte at the index is the first that is no digit. -/
structure FirstBad (bytes : List UInt8) (byte : UInt8) (index : ℕ) : Prop where
  at_index : bytes[index]? = some byte
  bad : ¬IsDigitByte byte
  before : ∀ b ∈ bytes.take index, IsDigitByte b

variable {bytes : List UInt8} {index : ℕ}

lemma not_firstBad_nil : ¬FirstBad [] b index := fun h => by simpa using h.at_index

lemma firstBad_cons_of_bad {byte : UInt8} (hb : ¬IsDigitByte b) :
    FirstBad (b :: bytes) byte index ↔ byte = b ∧ index = 0 := by
  constructor
  · rintro ⟨hat, -, hbefore⟩
    cases index with
    | zero => exact ⟨(Option.some.inj hat).symm, rfl⟩
    | succ index => exact absurd (hbefore b (by simp)) hb
  · rintro ⟨rfl, rfl⟩
    exact ⟨rfl, hb, by simp⟩

lemma firstBad_cons_of_digit {byte : UInt8} (hb : IsDigitByte b) :
    FirstBad (b :: bytes) byte index ↔ ∃ later, index = later + 1 ∧ FirstBad bytes byte later := by
  constructor
  · rintro ⟨hat, hbad, hbefore⟩
    cases index with
    | zero => exact absurd (Option.some.inj hat ▸ hb) hbad
    | succ index =>
      rw [List.take_succ_cons, List.forall_mem_cons] at hbefore
      exact ⟨index, rfl, hat, hbad, hbefore.2⟩
  · rintro ⟨later, rfl, hat, hbad, hbefore⟩
    refine ⟨hat, hbad, ?_⟩
    rw [List.take_succ_cons, List.forall_mem_cons]
    exact ⟨hb, hbefore⟩

/-! ### Reading any text -/

lemma exists_digits (index : ℕ) {cs : List Char} (h : ∀ c ∈ cs, IsDigit c) :
    ∃ ds, digits index cs = .ok ds ∧ (∀ d ∈ ds, d < 16) ∧ ds.map digit = cs.map Char.toLower := by
  induction cs generalizing index with
  | nil => exact ⟨[], rfl, by simp, rfl⟩
  | cons c cs ih =>
    obtain ⟨hc, hcs⟩ := List.forall_mem_cons.mp h
    obtain ⟨d, hd, hvalue, hlower⟩ := hc.exists_value
    obtain ⟨ds, hds, hsmall, hmap⟩ := ih (index + 1) hcs
    refine ⟨d :: ds, by simp [digits, hvalue, hds, Except.map], ?_, by simp [hlower, hmap]⟩
    exact List.forall_mem_cons.mpr ⟨hd, hsmall⟩

lemma map_eq_error_iff {ε α β : Type} {f : α → β} {x : Except ε α} {e : ε} :
    x.map f = .error e ↔ x = .error e := by
  cases x <;> simp [Except.map]

lemma isDigit_of_digits {cs : List Char} {ds : List ℕ} (h : digits index cs = .ok ds) :
    ∀ c ∈ cs, IsDigit c := by
  induction cs generalizing index ds with
  | nil => simp
  | cons c cs ih =>
    unfold digits at h
    split at h
    · cases h
    · rename_i d hvalue
      have hc : IsDigit c := by
        by_contra hc
        cases (value?_eq_none_iff.mpr hc).symm.trans hvalue
      cases hrest : digits (index + 1) cs with
      | error cause =>
        rw [hrest] at h
        cases h
      | ok rest => exact List.forall_mem_cons.mpr ⟨hc, ih hrest⟩

lemma digits_eq_error_iff {cs : List Char} {e : Error} :
    digits index cs = .error e ↔ ∃ byte later, e = .badDigit byte (index + later) ∧
      FirstBad (cs.flatMap String.utf8EncodeChar) byte later := by
  induction cs generalizing index with
  | nil => simp [digits, not_firstBad_nil]
  | cons c cs ih =>
    rw [List.flatMap_cons]
    -- A digit is one byte, so what follows it is one byte nearer; anything else is bad from its
    -- first byte on.
    by_cases hc : IsDigit c
    · obtain ⟨d, -, hvalue, -⟩ := hc.exists_value
      have hmap : digits index (c :: cs) = (digits (index + 1) cs).map (d :: ·) := by
        rw [digits, hvalue]
      rw [hmap, map_eq_error_iff, ih, utf8EncodeChar_of_isDigit hc]
      simp only [List.cons_append, List.nil_append,
        firstBad_cons_of_digit (isDigitByte_leadByte.mpr hc), Nat.add_right_comm index 1]
      constructor
      · rintro ⟨byte, later, rfl, hfirst⟩
        exact ⟨byte, later + 1, rfl, later, rfl, hfirst⟩
      · rintro ⟨byte, -, rfl, later, rfl, hfirst⟩
        exact ⟨byte, later, rfl, hfirst⟩
    · obtain ⟨rest, he⟩ := exists_utf8EncodeChar c
      have hbad : ¬IsDigitByte (leadByte c) := fun h => hc (isDigitByte_leadByte.mp h)
      rw [digits, value?_eq_none_iff.mpr hc, he, List.cons_append]
      simp only [firstBad_cons_of_bad hbad]
      constructor
      · intro h
        exact ⟨_, 0, (Except.error.inj h).symm, rfl, rfl⟩
      · rintro ⟨byte, later, rfl, rfl, rfl⟩
        rfl

/-- Two digits make one byte, and a byte is written as two digits. -/
lemma flatMap_pair_join {ds : List ℕ} (heven : ds.length % 2 = 0) (hds : ∀ d ∈ ds, d < 16) :
    (join ds).flatMap pair = ds.map digit := by
  induction ds using join.induct with
  | case1 high low rest ih =>
    simp only [List.forall_mem_cons] at hds
    obtain ⟨hhigh, hlow, hrest⟩ := hds
    have hrest_even : rest.length % 2 = 0 := by
      simp only [List.length_cons] at heven
      omega
    have hbyte : (UInt8.ofNat (16 * high + low)).toNat = 16 * high + low := by
      rw [UInt8.toNat_ofNat']
      omega
    have hhalves : (16 * high + low) / 16 = high ∧ (16 * high + low) % 16 = low := by omega
    rw [join, List.flatMap_cons, ih hrest_even hrest, pair, hbyte, hhalves.1, hhalves.2]
    rfl
  | case2 ds hshort =>
    match ds, hshort with
    | [], _ => rfl
    | [_], _ => simp at heven
    | high :: low :: rest, hshort => exact (hshort high low rest rfl).elim

lemma decode_of_odd (h : s.utf8ByteSize % 2 = 1) : decode s = .error .oddLength := if_pos h

lemma decode_of_even (h : s.utf8ByteSize % 2 = 0) : decode s = (digits 0 s.toList).map join :=
  if_neg (by omega)

lemma decode_eq_error_iff_of_even {e : Error} (h : s.utf8ByteSize % 2 = 0) :
    decode s = .error e ↔ ∃ byte index, e = .badDigit byte index ∧
      FirstBad (octets s) byte index := by
  simp only [decode_of_even h, map_eq_error_iff, digits_eq_error_iff, octets_eq, Nat.zero_add]

lemma decode_eq_oddLength_iff : decode s = .error .oddLength ↔ s.utf8ByteSize % 2 = 1 := by
  rcases Nat.mod_two_eq_zero_or_one s.utf8ByteSize with heven | hodd
  · simp [decode_eq_error_iff_of_even heven, heven]
  · simp [decode_of_odd hodd, hodd]

lemma decode_eq_badDigit_iff {byte : UInt8} : decode s = .error (.badDigit byte index) ↔
    s.utf8ByteSize % 2 = 0 ∧ FirstBad (octets s) byte index := by
  rcases Nat.mod_two_eq_zero_or_one s.utf8ByteSize with heven | hodd
  · rw [decode_eq_error_iff_of_even heven]
    constructor
    · rintro ⟨_, _, he, hfirst⟩
      cases he
      exact ⟨heven, hfirst⟩
    · rintro ⟨-, hfirst⟩
      exact ⟨_, _, rfl, hfirst⟩
  · simp [decode_of_odd hodd, hodd]

lemma length_encode (bytes : List UInt8) : (encode bytes).length = 2 * bytes.length := by
  simp [encode, pair, List.length_flatMap, Nat.mul_comm]

lemma toList_toLower (s : String) : s.toLower.toList = s.toList.map Char.toLower :=
  String.toList_map

lemma length_of_encode_eq (h : encode bytes = s.toLower) : s.length = 2 * bytes.length := by
  rw [← length_encode, h, ← String.length_toList, ← String.length_toList, toList_toLower,
    List.length_map]

/-- An even number of digits is read as bytes that are written as the same digits in lower case. -/
lemma exists_decode (heven : s.utf8ByteSize % 2 = 0) (h : ∀ c ∈ s.toList, IsDigit c) :
    ∃ bytes, decode s = .ok bytes ∧ encode bytes = s.toLower := by
  obtain ⟨ds, hds, hsmall, hlower⟩ := exists_digits 0 h
  have hlength : ds.length % 2 = 0 := by
    have hmap := congrArg List.length hlower
    rw [List.length_map, List.length_map, String.length_toList] at hmap
    rw [hmap, ← utf8ByteSize_of_isDigit h, heven]
  refine ⟨join ds, by rw [decode_of_even heven, hds]; rfl, ?_⟩
  rw [← String.toList_inj, toList_toLower, encode, String.toList_ofList,
    flatMap_pair_join hlength hsmall, hlower]

lemma even_of_decode (h : decode s = .ok bytes) : s.utf8ByteSize % 2 = 0 := by
  rcases Nat.mod_two_eq_zero_or_one s.utf8ByteSize with heven | hodd
  · exact heven
  · cases (decode_of_odd hodd).symm.trans h

lemma decode_eq_ok_iff :
    decode s = .ok bytes ↔ (∀ c ∈ s.toList, IsDigit c) ∧ encode bytes = s.toLower := by
  constructor
  · intro h
    have heven := even_of_decode h
    have hdigits : ∀ c ∈ s.toList, IsDigit c := by
      rw [decode_of_even heven] at h
      cases hds : digits 0 s.toList with
      | error cause =>
        rw [hds] at h
        cases h
      | ok ds => exact isDigit_of_digits hds
    obtain ⟨read, hread, hlower⟩ := exists_decode heven hdigits
    cases hread.symm.trans h
    exact ⟨hdigits, hlower⟩
  · rintro ⟨hdigits, hlower⟩
    have heven : s.utf8ByteSize % 2 = 0 := by
      rw [utf8ByteSize_of_isDigit hdigits, length_of_encode_eq hlower, Nat.mul_mod_right]
    obtain ⟨read, hread, hsame⟩ := exists_decode heven hdigits
    rw [hread, encode_injective (hsame.trans hlower.symm)]

/-- Twice as many digits as bytes are read, and nothing else is. -/
lemma exists_decode_iff {size : ℕ} : (∃ bytes, decode s = .ok bytes ∧ bytes.length = size) ↔
    s.utf8ByteSize = 2 * size ∧ ∀ c ∈ s.toList, IsDigit c := by
  constructor
  · rintro ⟨bytes, h, rfl⟩
    obtain ⟨hdigits, hlower⟩ := decode_eq_ok_iff.mp h
    rw [utf8ByteSize_of_isDigit hdigits]
    exact ⟨length_of_encode_eq hlower, hdigits⟩
  · rintro ⟨hsize, hdigits⟩
    obtain ⟨bytes, h, hlower⟩ := exists_decode (by omega) hdigits
    have hlength := length_of_encode_eq hlower
    rw [utf8ByteSize_of_isDigit hdigits] at hsize
    exact ⟨bytes, h, by omega⟩

end Hex

namespace Rid

theorem ofHex_toHex (r : Rid) : ofHex r.toHex = .ok r := by
  unfold ofHex toHex
  rw [Hex.decode_encode]
  exact dif_pos r.length_eq

variable {s : String}

lemma ofHex_eq_ok_iff {r : Rid} : ofHex s = .ok r ↔ Hex.decode s = .ok r.bytes := by
  obtain ⟨expected, hexpected⟩ := r
  cases hread : Hex.decode s with
  | error cause => simp [ofHex, hread]
  | ok bytes =>
    rw [ofHex, hread]
    by_cases hlength : bytes.length = 32
    · simp [hlength]
    · refine iff_of_false (by simp [hlength]) ?_
      rintro ⟨rfl⟩
      exact hlength hexpected

lemma ofHex_eq_invalidHex_iff {cause : Hex.Error} :
    ofHex s = .error (.invalidHex cause) ↔ Hex.decode s = .error cause := by
  cases hread : Hex.decode s with
  | error cause => simp [ofHex, hread]
  | ok bytes =>
    rw [ofHex, hread]
    by_cases hlength : bytes.length = 32 <;> simp [hlength]

lemma ofHex_eq_invalidLength_iff {size : ℕ} : ofHex s = .error (.invalidLength size) ↔
    size ≠ 32 ∧ ∃ bytes, Hex.decode s = .ok bytes ∧ bytes.length = size := by
  cases hread : Hex.decode s with
  | error cause => simp [ofHex, hread]
  | ok bytes =>
    rw [ofHex, hread]
    by_cases hlength : bytes.length = 32
    · refine iff_of_false (by simp [hlength]) ?_
      rintro ⟨hne, _, ⟨rfl⟩, rfl⟩
      exact hne hlength
    · simp only [hlength, dif_neg, not_false_eq_true]
      constructor
      · rintro ⟨rfl⟩
        exact ⟨hlength, bytes, rfl, rfl⟩
      · rintro ⟨-, _, ⟨rfl⟩, rfl⟩
        rfl

lemma exists_ofHex_iff :
    (∃ r, ofHex s = .ok r) ↔ s.length = 64 ∧ ∀ c ∈ s.toList, Hex.IsDigit c := by
  have hread : (∃ r, ofHex s = .ok r) ↔ ∃ bytes, Hex.decode s = .ok bytes ∧ bytes.length = 32 :=
    ⟨fun ⟨r, h⟩ => ⟨r.bytes, ofHex_eq_ok_iff.mp h, r.length_eq⟩,
      fun ⟨bytes, h, hlength⟩ => ⟨⟨bytes, hlength⟩, ofHex_eq_ok_iff.mpr h⟩⟩
  rw [hread, Hex.exists_decode_iff, and_congr_left_iff]
  intro hdigits
  rw [Hex.utf8ByteSize_of_isDigit hdigits]

/-- A text is read as a reference exactly when it consists of 64 digits in either case, and the
reference that is read is the one written as the same digits in lower case; so what is written is
read back. An odd number of bytes is refused before anything else, then the first byte that is no
digit, and whatever else is no reference is refused for the number of bytes that its digits make. -/
theorem ofHex_outcome (s : String) :
    ((∃ r, ofHex s = .ok r) ↔ s.length = 64 ∧ ∀ c ∈ s.toList, Hex.IsDigit c) ∧
    (∀ r, ofHex s = .ok r ↔ (∀ c ∈ s.toList, Hex.IsDigit c) ∧ r.toHex = s.toLower) ∧
    (∀ r : Rid, ofHex r.toHex = .ok r) ∧
    (ofHex s = .error (.invalidHex .oddLength) ↔ s.utf8ByteSize % 2 = 1) ∧
    (∀ byte index, ofHex s = .error (.invalidHex (.badDigit byte index)) ↔
      s.utf8ByteSize % 2 = 0 ∧ Hex.FirstBad (Hex.octets s) byte index) ∧
    (∀ size, ofHex s = .error (.invalidLength size) ↔
      s.utf8ByteSize = 2 * size ∧ size ≠ 32 ∧ ∀ byte ∈ Hex.octets s, Hex.IsDigitByte byte) := by
  refine ⟨exists_ofHex_iff, fun r => ?_, ofHex_toHex, ?_, fun byte index => ?_, fun size => ?_⟩
  · exact ofHex_eq_ok_iff.trans Hex.decode_eq_ok_iff
  · exact ofHex_eq_invalidHex_iff.trans Hex.decode_eq_oddLength_iff
  · exact ofHex_eq_invalidHex_iff.trans Hex.decode_eq_badDigit_iff
  · rw [ofHex_eq_invalidLength_iff, Hex.exists_decode_iff, Hex.isDigitByte_octets, and_left_comm]

/-- The first byte of a letter beyond ASCII is what stands between the digits. -/
example : ofHex "0é0" = .error (.invalidHex (.badDigit 0xc3 1)) := by decide

end Rid

end Conclave

import Conclave.Proofs.RidText
import Conclave.Wire.Codec
import Mathlib.Data.List.Basic

/-!
# What is written is read back

Each codec is a pair of functions, and the law of such a pair (`RoundTrips`) is proved once for a
list of things that satisfy it and then record by record, in the order in which the records nest.
The law names what fits the format: a number fits its word, and everything else fits as it is.
-/

namespace Conclave

namespace Wire

open Value

/-- Writing and reading undo each other: what fits is read back as it was, so no two values are
written alike, and whatever can be read fits and is kept when it is written and read again. -/
structure RoundTrips {α : Type} (fits : α → Prop) (write : α → Value) (read : Value → Option α) :
    Prop where
  read_write : ∀ a, fits a → read (write a) = some a
  injective : ∀ a b, fits a → fits b → write a = write b → a = b
  fits_of_read : ∀ v a, read v = some a → fits a
  reread : ∀ v a, read v = some a → read (write a) = some a

section RoundTrips

variable {α : Type} {fits : α → Prop} {write : α → Value} {read : Value → Option α}

lemma roundTrips (hwrite : ∀ a, fits a → read (write a) = some a)
    (hread : ∀ v a, read v = some a → fits a) : RoundTrips fits write read where
  read_write := hwrite
  injective a b ha hb h := by
    have hsame := hwrite a ha
    rw [h, hwrite b hb] at hsame
    exact (Option.some.inj hsame).symm
  fits_of_read := hread
  reread v a h := hwrite a (hread v a h)

/-- All values fit their type. -/
abbrev Anything {α : Type} (_ : α) : Prop := True

lemma all?_map (h : ∀ a, fits a → read (write a) = some a) {l : List α} (hl : ∀ a ∈ l, fits a) :
    all? read (l.map write) = some l := by
  induction l with
  | nil => rfl
  | cons a l ih =>
    obtain ⟨ha, hl⟩ := List.forall_mem_cons.mp hl
    simp only [List.map_cons, all?, h a ha, ih hl]

lemma fits_of_all? (h : ∀ v a, read v = some a → fits a) {vs : List Value} {l : List α}
    (hall : all? read vs = some l) : ∀ a ∈ l, fits a := by
  induction vs generalizing l with
  | nil =>
    cases hall
    simp
  | cons v vs ih =>
    unfold all? at hall
    split at hall
    · rename_i a rest ha hrest
      cases hall
      exact List.forall_mem_cons.mpr ⟨h v a ha, ih hrest⟩
    · cases hall

/-- A list is written item by item. -/
lemma RoundTrips.list (h : RoundTrips fits write read) :
    RoundTrips (fun l : List α => ∀ a ∈ l, fits a) (fun l => .list (l.map write))
      (listOf? read) := by
  refine roundTrips (fun l hl => all?_map h.read_write hl) fun v l hv => ?_
  obtain ⟨vs, -, hall⟩ := Option.bind_eq_some_iff.mp hv
  exact fits_of_all? h.fits_of_read hall

lemma RoundTrips.anything {write : List α → Value} {read : Value → Option (List α)}
    (h : RoundTrips (fun l : List α => ∀ a ∈ l, Anything a) write read) :
    RoundTrips Anything write read :=
  roundTrips (fun l _ => h.read_write l fun _ _ => trivial) fun _ _ _ => trivial

end RoundTrips

/-! ### Numbers, bytes and references -/

lemma roundTrips_nat (bound : ℕ) : RoundTrips (· ≤ bound) nat (asNat? bound) := by
  refine roundTrips (fun k hk => if_pos hk) fun v k hv => ?_
  unfold asNat? at hv
  split at hv
  · split at hv
    · cases hv
      assumption
    · cases hv
  · cases hv

lemma roundTrips_signed :
    RoundTrips (fun k => Word.minSigned ≤ k ∧ k ≤ Word.maxSigned) integer asSigned? := by
  refine roundTrips (fun k hk => if_pos hk) fun v k hv => ?_
  unfold asSigned? at hv
  split at hv
  · split at hv
    · cases hv
      assumption
    · cases hv
  · cases hv

lemma readByte_writeByte (b : UInt8) : readByte (writeByte b) = some b := by
  have hb : b.toNat ≤ 255 := Nat.le_of_lt_succ b.toNat_lt
  unfold readByte writeByte
  rw [(roundTrips_nat 255).read_write _ hb, Option.map_some, UInt8.ofNat_toNat]

lemma roundTrips_byte : RoundTrips Anything writeByte readByte :=
  roundTrips (fun b _ => readByte_writeByte b) fun _ _ _ => trivial

lemma roundTrips_bytes : RoundTrips Anything writeBytes readBytes :=
  roundTrips_byte.list.anything

lemma readRid_writeRid (r : Rid) : readRid (writeRid r) = some r := by
  simp only [readRid, writeRid, asText?, Option.bind_some, Rid.ofHex_toHex]
  rfl

lemma readOptionalRid_writeOptionalRid (r : Option Rid) :
    readOptionalRid (some (writeOptionalRid r)) = some r := by
  cases r with
  | none => rfl
  | some r => exact congrArg (Option.map some) (readRid_writeRid r)

/-! ### Records -/

/-- The height and the timestamp fit their words. -/
def HeaderFits (h : Header) : Prop := h.height ≤ Word.maxUnsigned ∧ h.timestamp ≤ Word.maxUnsigned

def BlockFits (b : Block) : Prop := HeaderFits b.header

def MessageFits : Message → Prop
  | .status s => s.inRange = true
  | .unfinishedBlock b => BlockFits b
  | .getBlockAtHeight height => height ≤ Word.maxUnsigned
  | .completeBlock b height => BlockFits b.block ∧ height ≤ Word.maxUnsigned
  | .getUnfinishedBlock _ | .getBlockSignature _ | .blockSignature .. => True

lemma readSignature_writeSignature (s : Signature) : readSignature (writeSignature s) = some s := by
  have hsigner := roundTrips_bytes.read_write s.signer trivial
  have hdata := roundTrips_bytes.read_write s.data trivial
  simp [readSignature, writeSignature, fields?, entries?, List.lookup_cons, hsigner, hdata]

lemma roundTrips_signature : RoundTrips Anything writeSignature readSignature :=
  roundTrips (fun s _ => readSignature_writeSignature s) fun _ _ _ => trivial

lemma roundTrips_phase : RoundTrips Anything writePhase readPhase := by
  refine roundTrips (fun p _ => ?_) fun _ _ _ => trivial
  cases p <;> rfl

lemma roundTrips_status : RoundTrips (fun s => s.inRange = true) writeStatus readStatus := by
  refine roundTrips (fun s hs => ?_) fun v s hv => ?_
  · obtain ⟨hheight, hround, hserial⟩ : s.height ≤ Word.maxUnsigned ∧ s.round ≤ Word.maxUnsigned ∧
        Word.minSigned ≤ s.serial ∧ s.serial ≤ Word.maxSigned := by
      simpa [NodeStatus.inRange] using hs
    have h₁ := (roundTrips_nat _).read_write s.height hheight
    have h₂ := roundTrips_signed.read_write s.serial hserial
    have h₃ := (roundTrips_nat _).read_write s.round hround
    have h₄ := roundTrips_phase.read_write s.phase trivial
    have h₅ := readOptionalRid_writeOptionalRid s.rid
    simp [readStatus, writeStatus, fields?, entries?, List.lookup_cons, asWord?, asBool?, h₁, h₂,
      h₃, h₄, h₅]
  · simp only [readStatus, Option.bind_eq_bind, Option.bind_eq_some_iff] at hv
    obtain ⟨fields, -, hv⟩ := hv
    split at hv
    · simp only [Option.bind_eq_some_iff, Option.pure_def, Option.some.injEq] at hv
      obtain ⟨height, hheight, serial, hserial, round, hround, -, -, -, -, -, -, rfl⟩ := hv
      have h₁ := (roundTrips_nat _).fits_of_read _ _ hheight
      have h₂ := roundTrips_signed.fits_of_read _ _ hserial
      have h₃ := (roundTrips_nat _).fits_of_read _ _ hround
      simpa [NodeStatus.inRange] using ⟨h₁, h₃, h₂⟩
    · cases hv

lemma roundTrips_header : RoundTrips HeaderFits writeHeader readHeader := by
  refine roundTrips (fun h ⟨hheight, htime⟩ => ?_) fun v h hv => ?_
  · have h₁ := readRid_writeRid h.rid
    have h₂ := readRid_writeRid h.parent
    have h₃ := (roundTrips_nat _).read_write h.height hheight
    have h₄ := (roundTrips_nat _).read_write h.timestamp htime
    simp [readHeader, writeHeader, fields?, entries?, List.lookup_cons, asWord?, h₁, h₂, h₃, h₄]
  · simp only [readHeader, Option.bind_eq_bind, Option.bind_eq_some_iff] at hv
    obtain ⟨fields, -, hv⟩ := hv
    split at hv
    · simp only [Option.bind_eq_some_iff, Option.pure_def, Option.some.injEq] at hv
      obtain ⟨rid, -, parent, -, height, hheight, timestamp, htime, rfl⟩ := hv
      exact ⟨(roundTrips_nat _).fits_of_read _ _ hheight, (roundTrips_nat _).fits_of_read _ _ htime⟩
    · cases hv

lemma roundTrips_transactions : RoundTrips Anything
    (fun txs : List Bytes => .list (txs.map writeBytes)) (listOf? readBytes) :=
  roundTrips_bytes.list.anything

lemma roundTrips_block : RoundTrips BlockFits writeBlock readBlock := by
  refine roundTrips (fun b hb => ?_) fun v b hv => ?_
  · have h₁ := roundTrips_header.read_write b.header hb
    have h₂ := roundTrips_transactions.read_write b.transactions trivial
    simp [readBlock, writeBlock, fields?, entries?, List.lookup_cons, h₁, h₂]
  · simp only [readBlock, Option.bind_eq_bind, Option.bind_eq_some_iff] at hv
    obtain ⟨fields, -, hv⟩ := hv
    split at hv
    · simp only [Option.bind_eq_some_iff, Option.pure_def, Option.some.injEq] at hv
      obtain ⟨header, hheader, transactions, -, rfl⟩ := hv
      exact roundTrips_header.fits_of_read _ _ hheader
    · cases hv

lemma roundTrips_witness : RoundTrips Anything writeWitness readWitness := by
  refine roundTrips (fun w _ => ?_) fun _ _ _ => trivial
  have h₁ := roundTrips_signature.list.anything.read_write w.signatures trivial
  simp [readWitness, writeWitness, fields?, entries?, List.lookup_cons, h₁]

lemma roundTrips_sealed : RoundTrips (fun b => BlockFits b.block) writeSealed readSealed := by
  refine roundTrips (fun b hb => ?_) fun v b hv => ?_
  · have h₁ := roundTrips_block.read_write b.block hb
    have h₂ := roundTrips_witness.read_write b.witness trivial
    simp [readSealed, writeSealed, fields?, entries?, List.lookup_cons, h₁, h₂]
  · simp only [readSealed, Option.bind_eq_bind, Option.bind_eq_some_iff] at hv
    obtain ⟨fields, -, hv⟩ := hv
    split at hv
    · simp only [Option.bind_eq_some_iff, Option.pure_def, Option.some.injEq] at hv
      obtain ⟨block, hblock, witness, -, rfl⟩ := hv
      exact roundTrips_block.fits_of_read _ _ hblock
    · cases hv

/-! ### Messages -/

lemma readMessage_writeMessage {m : Message} (h : MessageFits m) :
    readMessage (writeMessage m) = some m := by
  cases m with
  | status s =>
    have h₁ := roundTrips_status.read_write s h
    simp [readMessage, writeMessage, case?, h₁]
  | getUnfinishedBlock rid =>
    have h₁ := readRid_writeRid rid
    simp [readMessage, writeMessage, case?, entries?, h₁]
  | unfinishedBlock b =>
    have h₁ := roundTrips_block.read_write b h
    simp [readMessage, writeMessage, case?, h₁]
  | getBlockAtHeight height =>
    have h₁ := (roundTrips_nat _).read_write height h
    simp [readMessage, writeMessage, case?, entries?, asWord?, h₁]
  | completeBlock b height =>
    have h₁ := roundTrips_sealed.read_write b h.1
    have h₂ := (roundTrips_nat _).read_write height h.2
    simp [readMessage, writeMessage, case?, entries?, List.lookup_cons, asWord?, h₁, h₂]
  | getBlockSignature rid =>
    have h₁ := readRid_writeRid rid
    simp [readMessage, writeMessage, case?, entries?, h₁]
  | blockSignature rid s =>
    have h₁ := readRid_writeRid rid
    have h₂ := readSignature_writeSignature s
    simp [readMessage, writeMessage, case?, entries?, List.lookup_cons, h₁, h₂]

lemma fits_of_readMessage {v : Value} {m : Message} (h : readMessage v = some m) :
    MessageFits m := by
  simp only [readMessage, Option.bind_eq_bind, Option.bind_eq_some_iff] at h
  obtain ⟨⟨name, content⟩, -, h⟩ := h
  split at h
  swap
  · cases h
  split at h
  case h_1 => -- a status, not in a record
    simp only [Option.bind_eq_some_iff, Option.pure_def, Option.some.injEq] at h
    obtain ⟨s, hs, rfl⟩ := h
    exact roundTrips_status.fits_of_read _ _ hs
  case h_2 => -- an unfinished block, not in a record
    simp only [Option.bind_eq_some_iff, Option.pure_def, Option.some.injEq] at h
    obtain ⟨b, hb, rfl⟩ := h
    exact roundTrips_block.fits_of_read _ _ hb
  case h_8 => cases h -- no such case
  -- The content of the other five is a record.
  all_goals
    obtain ⟨fields, -, h⟩ := Option.bind_eq_some_iff.mp h
    split at h
    swap
    · cases h
    simp only [Option.bind_eq_some_iff, Option.pure_def, Option.some.injEq] at h
  · obtain ⟨rid, -, rfl⟩ := h
    trivial
  · obtain ⟨height, hheight, rfl⟩ := h
    exact (roundTrips_nat _).fits_of_read _ _ hheight
  · obtain ⟨b, hb, height, hheight, rfl⟩ := h
    exact ⟨roundTrips_sealed.fits_of_read _ _ hb, (roundTrips_nat _).fits_of_read _ _ hheight⟩
  · obtain ⟨rid, -, rfl⟩ := h
    trivial
  · obtain ⟨rid, -, s, -, rfl⟩ := h
    trivial

/-! ### The format -/

/-- Every value that fits its type survives being written and read, and whatever can be read is
kept by a second round. -/
theorem codecs_round_trip :
    RoundTrips Anything writeSignature readSignature ∧
    RoundTrips Anything writePhase readPhase ∧
    RoundTrips (fun s => s.inRange = true) writeStatus readStatus ∧
    RoundTrips HeaderFits writeHeader readHeader ∧
    RoundTrips BlockFits writeBlock readBlock ∧
    RoundTrips Anything writeWitness readWitness ∧
    RoundTrips (fun b => BlockFits b.block) writeSealed readSealed ∧
    RoundTrips MessageFits writeMessage readMessage :=
  ⟨roundTrips_signature, roundTrips_phase, roundTrips_status, roundTrips_header, roundTrips_block,
    roundTrips_witness, roundTrips_sealed,
    roundTrips (fun _ => readMessage_writeMessage) fun _ _ => fits_of_readMessage⟩

end Wire

end Conclave


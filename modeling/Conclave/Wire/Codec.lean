import Conclave.Message
import Conclave.Wire.Value

/-!
Messages and their parts as value trees, written and read back. Bytes are lists of numbers and a
block reference is its hexadecimal text.
-/

namespace Conclave.Wire

open Value

def writeByte (b : UInt8) : Value := nat b.toNat

def readByte (v : Value) : Option UInt8 := (v.asNat? 255).map UInt8.ofNat

def writeBytes (bytes : Bytes) : Value := list (bytes.map writeByte)

def readBytes : Value → Option Bytes := listOf? readByte

def writeRid (r : Rid) : Value := text r.toHex

def readRid (v : Value) : Option Rid := v.asText?.bind fun s => (Rid.ofHex s).toOption

def writeSignature (s : Signature) : Value :=
  object [("subject_id", writeBytes s.signer), ("data", writeBytes s.data)]

def readSignature (v : Value) : Option Signature := do
  let [some signer, some data] ← v.fields? ["subject_id", "data"] | none
  return ⟨← readBytes signer, ← readBytes data⟩

def writePhase (p : Phase) : Value := text p.name

def readPhase (v : Value) : Option Phase := do
  let (name, content) ← v.case?
  match content with
  | none | some .null => [Phase.waitBlock, .haveBlock, .prepared].find? (·.name = name)
  | _ => none

def writeOptionalRid : Option Rid → Value
  | none => null
  | some r => writeRid r

/-- A missing field reads as no reference. -/
def readOptionalRid : Option Value → Option (Option Rid)
  | none | some .null => some none
  | some v => (readRid v).map some

def writeStatus (s : NodeStatus) : Value :=
  object [("height", nat s.height), ("serial", integer s.serial), ("round", nat s.round),
    ("state", writePhase s.phase), ("block_rid", writeOptionalRid s.rid),
    ("revolting", bool s.revolting)]

def readStatus (v : Value) : Option NodeStatus := do
  let [some height, some serial, some round, some phase, rid, some revolting] ←
    v.fields? ["height", "serial", "round", "state", "block_rid", "revolting"] | none
  return ⟨← height.asWord?, ← serial.asSigned?, ← round.asWord?, ← readPhase phase,
    ← readOptionalRid rid, ← revolting.asBool?⟩

def writeHeader (h : Header) : Value :=
  object [("block_rid", writeRid h.rid), ("prev_block_rid", writeRid h.parent),
    ("height", nat h.height), ("timestamp", nat h.timestamp)]

def readHeader (v : Value) : Option Header := do
  let [some rid, some parent, some height, some timestamp] ←
    v.fields? ["block_rid", "prev_block_rid", "height", "timestamp"] | none
  return ⟨← readRid rid, ← readRid parent, ← height.asWord?, ← timestamp.asWord?⟩

def writeBlock (b : Block) : Value :=
  object [("header", writeHeader b.header), ("transactions", list (b.transactions.map writeBytes))]

def readBlock (v : Value) : Option Block := do
  let [some header, some transactions] ← v.fields? ["header", "transactions"] | none
  return ⟨← readHeader header, ← listOf? readBytes transactions⟩

def writeWitness (w : Witness) : Value :=
  object [("signatures", list (w.signatures.map writeSignature))]

def readWitness (v : Value) : Option Witness := do
  let [some signatures] ← v.fields? ["signatures"] | none
  return ⟨← listOf? readSignature signatures⟩

def writeSealed (b : SealedBlock) : Value :=
  object [("block", writeBlock b.block), ("witness", writeWitness b.witness)]

def readSealed (v : Value) : Option SealedBlock := do
  let [some block, some witness] ← v.fields? ["block", "witness"] | none
  return ⟨← readBlock block, ← readWitness witness⟩

def writeMessage : Message → Value
  | .status s => object [("Status", writeStatus s)]
  | .getUnfinishedBlock rid => object [("GetUnfinishedBlock", object [("block_rid", writeRid rid)])]
  | .unfinishedBlock block => object [("UnfinishedBlock", writeBlock block)]
  | .getBlockAtHeight height => object [("GetBlockAtHeight", object [("height", nat height)])]
  | .completeBlock block height =>
    object [("CompleteBlock", object [("block", writeSealed block), ("height", nat height)])]
  | .getBlockSignature rid => object [("GetBlockSignature", object [("block_rid", writeRid rid)])]
  | .blockSignature rid signature =>
    object [("BlockSignature",
      object [("block_rid", writeRid rid), ("signature", writeSignature signature)])]

/-- A case with named fields takes an object only. -/
def readMessage (v : Value) : Option Message := do
  let (name, some content) ← v.case? | none
  match name with
  | "Status" => return .status (← readStatus content)
  | "UnfinishedBlock" => return .unfinishedBlock (← readBlock content)
  | "GetUnfinishedBlock" =>
    let [some rid] ← content.entries? ["block_rid"] | none
    return .getUnfinishedBlock (← readRid rid)
  | "GetBlockAtHeight" =>
    let [some height] ← content.entries? ["height"] | none
    return .getBlockAtHeight (← height.asWord?)
  | "CompleteBlock" =>
    let [some block, some height] ← content.entries? ["block", "height"] | none
    return .completeBlock (← readSealed block) (← height.asWord?)
  | "GetBlockSignature" =>
    let [some rid] ← content.entries? ["block_rid"] | none
    return .getBlockSignature (← readRid rid)
  | "BlockSignature" =>
    let [some rid, some signature] ← content.entries? ["block_rid", "signature"] | none
    return .blockSignature (← readRid rid) (← readSignature signature)
  | _ => none

end Conclave.Wire

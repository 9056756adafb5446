import INA2A.Lib.Bytes
import INA2A.Lib.Words

/-! Messages of the dispatch/combine protocol (`protocol.h`) and the key that names a token. -/
namespace INA2A

open ByteBuffers BitWords

abbrev U16 := BitVec 16
abbrev U32 := BitVec 32
abbrev U64 := BitVec 64

def magicNumber : U32 := 0x494E4332
def protocolVersion : U16 := 1

/-- `sizeof(MsgHeader)` under LP64, four bytes of padding after `originRank` included. -/
def sizeofMsgHeader : ℕ := 80

inductive MsgType
  | hello | dispatchToken | expertInput | expertResult | combinePullReq | combineResult
  | notReady | ack | finish
  deriving DecidableEq, Repr

def MsgType.code : MsgType → U16
  | .hello => 1
  | .dispatchToken => 2
  | .expertInput => 3
  | .expertResult => 4
  | .combinePullReq => 5
  | .combineResult => 6
  | .notReady => 7
  | .ack => 8
  | .finish => 9

/-- The type field is a raw 16-bit number on the wire; other values name no message type. -/
def MsgType.ofCode (c : U16) : Option MsgType :=
  if c = 1 then some .hello else if c = 2 then some .dispatchToken
  else if c = 3 then some .expertInput else if c = 4 then some .expertResult
  else if c = 5 then some .combinePullReq else if c = 6 then some .combineResult
  else if c = 7 then some .notReady else if c = 8 then some .ack
  else if c = 9 then some .finish else none

@[simp] theorem MsgType.ofCode_code (t : MsgType) : MsgType.ofCode t.code = some t := by
  cases t <;> rfl

structure MsgHeader where
  magic : U32
  version : U16
  type : U16
  headerLen : U32
  payloadLen : U32
  runId : U64
  microbatchId : U64
  tokenId : U64
  srcRank : U32
  dstRank : U32
  originRank : U32
  expertBitmap : U64
  globalIdx : U64
  timestampNs : U64
  deriving DecidableEq, Repr

/-- `MsgHeader h{}` followed by the assignments every sender makes. -/
def MsgHeader.new (t : MsgType) (payloadLen : U32) : MsgHeader where
  magic := magicNumber
  version := protocolVersion
  type := t.code
  headerLen := BitVec.ofNat 32 sizeofMsgHeader
  payloadLen := payloadLen
  runId := 0
  microbatchId := 0
  tokenId := 0
  srcRank := 0
  dstRank := 0
  originRank := 0
  expertBitmap := 0
  globalIdx := 0
  timestampNs := 0

def MsgHeader.kind (h : MsgHeader) : Option MsgType := MsgType.ofCode h.type

/-- A header with its payload, as it sits in a queue, on a connection or in a handler. -/
structure Msg where
  header : MsgHeader
  payload : Bytes

@[ext] theorem Msg.ext {a b : Msg} (hh : a.header = b.header) (hp : a.payload = b.payload) :
    a = b := by
  cases a; cases b; simp_all

structure TokenDesc where
  runId : U64
  microbatchId : U64
  tokenId : U64
  srcRank : U32
  dstRank : U32
  originRank : U32
  expertBitmap : U64
  globalIdx : U64
  payloadLen : U32
  deriving DecidableEq, Repr

structure CombineKey where
  runId : U64
  microbatchId : U64
  tokenId : U64
  originRank : U32
  globalIdx : U64
  deriving DecidableEq, Repr

def makeKey (header : MsgHeader) : CombineKey where
  runId := header.runId
  microbatchId := header.microbatchId
  tokenId := header.tokenId
  originRank := header.originRank
  globalIdx := header.globalIdx

theorem makeKey_congr {a b : MsgHeader} (hrun : a.runId = b.runId)
    (hmb : a.microbatchId = b.microbatchId) (htoken : a.tokenId = b.tokenId)
    (horigin : a.originRank = b.originRank) (hidx : a.globalIdx = b.globalIdx) :
    makeKey a = makeKey b := by
  simp only [makeKey,hrun,hmb,htoken,horigin,hidx]

/-- Branches of both programs that reject, skip or report something. -/
inductive Fault
  | unknownToken | sizeMismatch | invalidExpertRank | duplicateOrUnexpected
  | payloadSizeMismatch | noConnectedHost | overwritingSlot | slotDoesNotExist
  | ignoredBySwitch | ignoredByHost
  | missingPayload | messageTooLarge
  | messageTooSmall | invalidHeader | truncatedMessage
  deriving DecidableEq, Repr

-- The runs that the samples replay have one or two hosts and fewer than eight tokens, all of
-- them written as numerals.
instance oneHost : NeZero (1 : ℕ) := ⟨by decide⟩
instance twoHosts : NeZero (2 : ℕ) := ⟨by decide⟩
instance eightTokens : NeZero (8 : ℕ) := ⟨by decide⟩

end INA2A

import INA2A.Protocol

/-! The transport (`transport_softroce.cc`) on whole messages: the checks `sr_write` makes
before it posts a send, and those `sr_read` makes on what arrived. -/
namespace INA2A

open ByteBuffers BitWords

def srMaxMsgSize : ℕ := 8 * 1024 * 1024

/-- `sr_write`: the frame holds the header and the first `payload_len` bytes; an empty
payload is passed as a null pointer. -/
def srWrite (m : Msg) : Except Fault Msg :=
  if 0 < m.header.payloadLen.toNat ∧ m.payload.size = 0 then .error .missingPayload
  else if srMaxMsgSize < sizeofMsgHeader + m.header.payloadLen.toNat then .error .messageTooLarge
  else .ok ⟨m.header,m.payload.take m.header.payloadLen.toNat⟩

/-- `sr_read` on a frame of `byteLen` bytes. -/
def srRead (byteLen : ℕ) (frame : Msg) : Except Fault Msg :=
  if byteLen < sizeofMsgHeader then .error .messageTooSmall
  else if frame.header.magic ≠ magicNumber ∨ frame.header.version ≠ protocolVersion then
    .error .invalidHeader
  else if byteLen < sizeofMsgHeader + frame.header.payloadLen.toNat then .error .truncatedMessage
  else .ok ⟨frame.header,frame.payload.take frame.header.payloadLen.toNat⟩

/-- A frame that `sr_write` built arrives with all its bytes. -/
def receive (frame : Msg) : Except Fault Msg :=
  srRead (sizeofMsgHeader + frame.header.payloadLen.toNat) frame

/-- What both programs make sure of before they send. -/
structure Msg.WellFormed (m : Msg) : Prop where
  magic : m.header.magic = magicNumber
  version : m.header.version = protocolVersion
  payload : m.payload.size = m.header.payloadLen.toNat
  small : sizeofMsgHeader + m.header.payloadLen.toNat ≤ srMaxMsgSize

theorem Msg.WellFormed.take {m : Msg} (h : m.WellFormed) :
    m.payload.take m.header.payloadLen.toNat = m.payload := by
  rw [← h.payload,Bytes.take_self]

theorem Msg.WellFormed.srWrite {m : Msg} (h : m.WellFormed) : srWrite m = .ok m := by
  have hpayload := h.payload
  have hsmall := h.small
  unfold INA2A.srWrite
  rw [if_neg (by omega),if_neg (by omega),h.take]

theorem Msg.WellFormed.receive {m : Msg} (h : m.WellFormed) : receive m = .ok m := by
  unfold INA2A.receive srRead
  rw [if_neg (by omega),if_neg (by simp [h.magic,h.version]),if_neg (by omega),h.take]

end INA2A
